import Haxify.Proofs.BracketsOfDeclarations
import Haxify.Proofs.DisciplineOfStatements

/-!
# The discipline of declarations and files

One statement for each rule at the top of a file, as for statements, and from them one for the
items of a whole file: every discipline allows the lowering of every file, and the values that
a file declares or exports are settled.
-/

namespace Haxify.Lower

open List
open Haxe (Balanced Unmarked balanced_joinWith)
open Haxe.Code (Closed)
open TypeScript (Slot grammar slots specialGrammar Tree Node)
open TypeScript.Tree (isGeneratorConstructor isMemberOfNamesake memberParts
  forall_of_eq_none forall_of_eq_some forall_of_filter forall_of_imp forall_of_not_has
  slots_of_mem_specialGrammar)

variable {first second : View} {program : Program} {registry : Foreign.Registry} {indent : String}
variable {index : Nat} {file : SourceFile}
variable {law : Discipline} {around : List Jump} {node : Part}

theorem allowed_codeText {code : List Haxe.Code} (closed : law.legible → Closed code) :
    law.Makes around Balanced True (codeText code) :=
  law.surroundings (fun _ _ agrees => by rw [agrees.indent]) fun _ spelled => makes_pure
    (fun legible => Haxe.Code.balanced_render (spelled legible).indent (closed legible)) trivial

section Classes

theorem allowed_classMemberName (node : Part) :
    law.VetsAll around ((Slot.field "name").pick node) Unmarked (classMemberName node) := by
  rw [classMemberName]
  split
  · exact allowed_refusal
  rename_i name found
  have leaf {kind : String} (same : name.kind = kind) (quiet : kind ∈ quietKinds) :
      ∀ part ∈ (Slot.field "name").pick node, law.Settled part :=
    forall_of_eq_some found (settled_of_quiet (same ▸ quiet))
  split
  · exact makes_pure (fun _ => Haxe.unmarked_sanitize _) (leaf ‹_› (by decide))
  · dsimp only
    split
    · exact makes_pure (fun _ => Haxe.unmarked_of_isIdentifier ‹_›) (leaf ‹_› (by decide))
    · exact allowed_refusal
  all_goals exact allowed_refusal

theorem fieldTypeSuffix_congr (agrees : first.Agrees second) (typed : node.Every Rendering.Typed) :
    fieldTypeSuffix first node = fieldTypeSuffix second node := by
  rw [fieldTypeSuffix, fieldTypeSuffix]
  split
  · rw [(typed.field ‹_›).top first second agrees]
  · rfl

def fieldKinds : List String := ["public_field_definition", "field_definition"]

theorem allowed_baseMember (isMember : node.kind = "member_expression") :
    law.Makes around Balanced (isMemberOfNamesake law.foreign node = false → law.Settled node)
      (baseMember node) := by
  rw [baseMember]
  split
  · rename_i object property found _
    refine allowed_bind (allowed_moduleMember? node object property.text) fun path spelled => ?_
    refine allowed_view (fun agrees => ?_) fun view _ => ?_
    · simp only [agrees.spelling?]
    split
    · exact allowed_refusal
    · refine makes_pure (fun legible => spelled.1 legible _ rfl) fun plain =>
        settled_member isMember found (settled_name ?_)
      simpa [isMemberOfNamesake, isMember, found, spelled.2 rfl] using plain
    · exact allowed_refusal
  · exact allowed_refusal

theorem settled_extendsClause (isClause : node.kind = "extends_clause")
    (settled : ∀ base, node.field? "value" = some base → isMemberOfNamesake law.foreign base =
      false →
      law.Settled base) : law.Settled node := by
  refine fun _ => settles_of_parts ?_ (by simp [isClause]) fun part member => ?_
  · simp [Tree.isUnlowerable, Tree.unlowerableKinds, isClause]
  · rw [loweredParts, isClause] at member
    obtain ⟨inside, other⟩ := mem_filter.mp member
    exact settled part (Option.mem_toList.mp inside) (by simpa using other) _

theorem settles_classBody (isBody : node.kind = "class_body")
    (settles : ∀ member ∈ node.named, ∀ part ∈ memberParts member, law.Settles ⟨[], part⟩) :
    law.Settles ⟨[], node⟩ := by
  refine settles_of_parts ?_ (by simp [isBody]) fun part member => ?_
  · simp [Tree.isUnlowerable, Tree.unlowerableKinds, isBody]
  · rw [loweredParts_eq (by simp [isBody]), Tree.renderedParts, isBody] at member
    rw [part_plain (by rw [isBody]; decide)]
    split at member
    · obtain ⟨source, listed, inside⟩ := mem_flatMap.mp member
      exact settles source listed part inside
    · simp at member

variable (covered : law.Covers node)
include covered

theorem allowed_classField (isField : node.kind ∈ fieldKinds) :
    law.Vets around node Balanced (classField node) := by
  have row : ∀ kind ∈ fieldKinds,
      (kind, [.everyOf ["decorator"], .field "name", .field "value"]) ∈ grammar := by
    simp [fieldKinds, grammar]
  rw [classField]
  refine allowed_guard fun plain => ?_
  have undecorated : node.has "decorator" = false := by simpa using plain
  refine allowed_guard fun _ => ?_
  refine makes_bind (allowed_classMemberName node) fun _ plain name => ?_
  have whole (value : ∀ part ∈ (Slot.field "value").pick node, law.Settled part) :
      law.Settled node :=
    settled_of_covered _ rfl (row _ isField)
      (.cons (forall_of_not_has undecorated) (.cons name (.cons value .nil)))
  refine allowed_view (fun agrees => ?_) fun view spelled => ?_
  · simp only [fieldTypeSuffix_congr agrees covered.typed]
  have keyword : Unmarked (if node.has "readonly" then "final " else "var ") := by
    split <;> decide
  have head (legible : law.legible) := (((unmarked_memberFront node).append
    keyword).append (plain legible)).balanced.append
    (balanced_fieldTypeSuffix (spelled legible) (covered.sound legible))
  dsimp only
  split
  · rename_i value found
    exact makes_map (covered.field found).top.expression
      (fun legible text => (((head legible).append (by decide)).append text).append (by decide))
      fun settled => whole (forall_of_eq_some found settled)
  · exact makes_pure (fun legible => (head legible).append (by decide))
      (whole (forall_of_eq_none ‹_›))

theorem allowed_classMethod (isMethod : node.kind = "method_definition") :
    law.Vets around node Balanced (classMethod node) := by
  rw [classMethod]
  refine allowed_guard fun _ => ?_
  refine allowed_guard fun _ => ?_
  refine allowed_bind (allowed_checkFlavor node) fun _ unstarred => ?_
  refine makes_bind (allowed_classMemberName node) fun _ plain name => ?_
  refine allowed_view (fun agrees => ?_) fun view spelled => ?_
  · simp only [typeParameters_congr agrees covered.typed]
  have signature (legible : law.legible) := (((unmarked_memberFront node).append
    (by decide : Unmarked "function ")).append (plain legible)).balanced.append
    (balanced_typeParameters (spelled legible) (covered.sound legible) "type_parameters")
  refine makes_map (allowed_functionLike _ signature (by rw [isMethod]; decide) covered)
    (fun _ function => function.text)
    (settled_method isMethod unstarred (forall_of_imp fun part found => ?_))
  obtain ⟨given, _⟩ := Option.filter_eq_some_iff.mp found
  exact name part (Option.mem_toList.mpr given)

theorem allowed_classConstructor (isMethod : node.kind = "method_definition")
    (isConstructor : (node.field? "name").any (·.text == "constructor")) :
    law.Makes around BalancedMember (∀ part ∈ memberParts node, law.Settles ⟨[], part⟩)
      (classConstructor node) := by
  rw [classConstructor]
  refine makes_map (allowed_functionLike _ (fun _ => by decide) (by rw [isMethod]; decide) covered)
    (fun _ function => ⟨function.fields, forall_mem_singleton.mpr function.text⟩)
    fun settles part member => ?_
  have unnamed : Slot.memberName.pick node = [] := by
    cases found : node.field? "name" with
    | none => simp [Slot.pick, found]
    | some name => simpa [Slot.pick, found] using isConstructor
  have row : slots "method_definition" = [.memberName, .parameters, .field "body"] :=
    slots_of_mem_specialGrammar (by simp [specialGrammar])
  rw [memberParts] at member
  split at member
  · rw [Tree.valueParts, isMethod, row, flatMap_cons, unnamed] at member
    split at member
    · exact settles.all part member
    · simp at member
  · rename_i plain
    rw [mem_singleton.mp member]
    refine settled_method isMethod ?_ (by simp [unnamed]) settles []
    simpa [isGeneratorConstructor, isMethod, isConstructor] using plain

theorem allowed_classMember :
    law.Makes around BalancedMember (∀ part ∈ memberParts node, law.Settles ⟨[], part⟩)
      (classMember node) := by
  -- Only a constructor may be marked as a generator; all other members are whole.
  have whole (plain : isGeneratorConstructor node = false) (settled : law.Settled node) :
      ∀ part ∈ memberParts node, law.Settles ⟨[], part⟩ := by
    simpa [memberParts, plain] using settled []
  have other {kind : String} (same : node.kind = kind) (noMethod : kind ≠ "method_definition") :
      isGeneratorConstructor node = false := by
    simp [isGeneratorConstructor, same, noMethod]
  have field {kind : String} (same : node.kind = kind)
      (listed : kind ∈ fieldKinds ∧ kind ≠ "method_definition") :
      law.Makes around BalancedMember (∀ part ∈ memberParts node, law.Settles ⟨[], part⟩) (do
        return ⟨[← classField node], [], false⟩) :=
    makes_map (allowed_classField covered (same ▸ listed.1))
      (fun _ text => ⟨forall_mem_singleton.mpr text, by simp⟩) (whole (other same listed.2))
  have empty {kind : String} (same : node.kind = kind)
      (listed : kind ∈ quietKinds ∧ kind ≠ "method_definition") :
      law.Makes around BalancedMember (∀ part ∈ memberParts node, law.Settles ⟨[], part⟩)
        (return ⟨[], [], false⟩) :=
    makes_pure (fun _ => ⟨by simp, by simp⟩)
      (whole (other same listed.2) (settled_of_quiet (same ▸ listed.1)))
  rw [classMember.eq_def]
  split
  iterate 2 exact field ‹_› (by decide)
  · rename_i isMethod
    rw [classFunction]
    split
    · exact allowed_classConstructor covered isMethod ‹_›
    rename_i plain
    exact makes_map (allowed_classMethod covered isMethod)
      (fun _ text => ⟨by simp, forall_mem_singleton.mpr text⟩)
      (whole (by simp [isGeneratorConstructor, plain]))
  iterate 2 exact empty ‹_› (by decide)
  all_goals exact allowed_refusal

theorem allowed_baseName (isName : node.kind = "identifier") :
    law.Makes around Balanced True (baseName node) := by
  rw [baseName]
  refine allowed_view (fun agrees => ?_) fun view _ => ?_
  · simp only [agrees.spelling?]
  split
  · exact makes_pure (fun legible => ((covered.top.sound legible).legible.copied
      (by rw [isName]; decide)).balanced) trivial
  all_goals exact allowed_refusal

theorem allowed_baseClass (isClause : node.kind = "extends_clause") :
    law.Vets around node Balanced (baseClass node) := by
  rw [baseClass]
  split
  · exact allowed_refusal
  rename_i value found
  refine allowed_view (fun agrees => ?_) fun view spelled => ?_
  · simp only [typeArguments_congr agrees covered.typed]
  have typed (legible : law.legible) :=
    balanced_typeArguments (spelled legible) (covered.sound legible) "type_arguments"
  have whole (settled : isMemberOfNamesake law.foreign value = false → law.Settled value) :
      law.Settled node := by
    refine settled_extendsClause isClause fun base same => ?_
    obtain rfl := Option.some.inj (found.symm.trans same)
    exact settled
  dsimp only
  split
  · rename_i isName
    exact makes_map (allowed_baseName (covered.field found) (eq_of_beq isName))
      (fun legible base => base.append (typed legible))
      fun _ => whole fun _ => settled_name (eq_of_beq isName)
  · split
    · rename_i isMember
      exact makes_map (allowed_baseMember (eq_of_beq isMember))
        (fun legible base => base.append (typed legible)) whole
    · have refused : law.Allows around (fun _ => False)
        (unsupported value "base class expression" : Lowering String) := allowed_refusal
      exact allowed_bind refused fun _ => False.elim

theorem allowed_baseClasses :
    law.VetsAll around ((Slot.firstOf "class_heritage").pick node)
      (fun bases => ∀ base ∈ bases, Balanced base) (baseClasses node) := by
  rw [baseClasses]
  split
  · exact makes_pure (by simp) (forall_of_eq_none ‹_›)
  rename_i heritage found
  have isHeritage : heritage.kind = "class_heritage" := by
    simpa using find?_some (p := fun part : Part => part.kind == "class_heritage") found
  have inside := covered.named (mem_of_find?_eq_some found)
  refine makes_imp (allowed_each fun part member =>
    allowed_baseClass (inside.named (mem_filter.mp member).1) (eq_of_beq (mem_filter.mp member).2))
      fun settled => ?_
  refine forall_of_eq_some found (settled_of_covered [.everyOf ["extends_clause"]] isHeritage
    (by simp [grammar]) (.cons (fun part member => settled part ?_) .nil))
  simpa [Slot.pick] using member

theorem allowed_classDeclaration (isPublic : Bool) (isClass : node.kind = "class_declaration") :
    law.Makes around Balanced (law.Settles ⟨[], node⟩) (classDeclaration node isPublic) := by
  rw [classDeclaration]
  refine allowed_guard fun plain => ?_
  have undecorated : node.has "decorator" = false := by simpa using plain
  split
  · exact allowed_refusal
  rename_i name foundName
  refine allowed_view (fun agrees => ?_) fun view spelled => ?_
  · simp only [typeParameters_congr agrees covered.typed]
  have head (legible : law.legible) := (((unmarked_visibility isPublic).append
    (by decide : Unmarked "class ")).append (unmarked_name "type_identifier" (by decide) (by decide)
      (covered.sound legible) isClass foundName)).balanced.append
    (balanced_typeParameters (spelled legible) (covered.sound legible) "type_parameters")
  refine makes_bind (allowed_baseClasses covered) fun _ extended bases => ?_
  dsimp only
  split
  · exact allowed_refusal
  rename_i body foundBody
  refine makes_bind (allowed_each fun member listed =>
    allowed_classMember ((covered.field foundBody).named listed)) fun _ all members => ?_
  refine allowed_blockText (fun legible => balanced_extended (head legible) (extended legible))
    (fun legible => closed_classBody _ (all legible)) (settles_of_plain
    [.everyOf ["decorator"], .firstOf "class_heritage", .listed "body" "class_body"] isClass
    (by simp [grammar]) (by decide) (.cons (forall_of_not_has undecorated)
      (.cons (fun part member => bases part member _)
        (.cons (forall_of_filter foundBody fun isBody => ?_) .nil))))
  exact settles_classBody (eq_of_beq isBody) members

end Classes

section Declarations

theorem interfaceBases_congr (agrees : first.Agrees second) (typed : node.Every Rendering.Typed) :
    interfaceBases first node = interfaceBases second node := by
  refine map_congr_left fun base member => ?_
  obtain ⟨clause, listed, inside⟩ := mem_flatMap.mp member
  exact ((typed.named (mem_filter.mp listed).1).named inside).top first second agrees

/-- Items that are balanced, each by itself. -/
abbrev BalancedItems (items : List String) : Prop := ∀ item ∈ items, Balanced item

theorem allowed_only {held known : Prop} {body : Lowering String}
    (made : law.Makes around Balanced held body) (implies : held → known) :
    law.Makes around BalancedItems known (do return [← body]) :=
  makes_map made (fun _ text => forall_mem_singleton.mpr text) implies

theorem allowed_nothing {known : Prop} (fact : known) :
    law.Makes around BalancedItems known (return []) :=
  makes_pure (fun _ => forall_mem_nil _) fact

def valueKinds : List String := "function_declaration" :: "class_declaration" :: variableKinds

/-- Whether a statement at the top of a file declares a value or exports one. -/
def isValueItem {α : Type} (node : TypeScript.Tree α) : Bool :=
  valueKinds.contains node.kind
    || node.kind == "export_statement" && (node.field? "declaration").elim (node.has "default")
      fun declaration => valueKinds.contains declaration.kind

@[simp] theorem isValueItem_rendered (tree : Node) :
    isValueItem (rendered tree) = isValueItem tree := by
  simp only [isValueItem, rendered, Tree.kind_annotate, Tree.field?_annotate, Tree.has_annotate]
  cases tree.field? "declaration" with
  | none => rfl
  | some declaration => simp

theorem settles_exportStatement (isExport : node.kind = "export_statement")
    (settles : ∀ part ∈ Slot.exported.pick node, law.Settles ⟨[], part⟩) :
    law.Settles ⟨[], node⟩ := by
  refine settles_of_parts ?_ (by simp [isExport]) fun part member => ?_
  · simp [Tree.isUnlowerable, Tree.unlowerableKinds, isExport]
  · rw [loweredParts_eq (by simp [isExport]), Tree.renderedParts, isExport] at member
    rw [part_plain (by rw [isExport]; decide)]
    split at member
    · exact settles part member
    · simp at member

variable (covered : law.Covers node)
include covered

theorem allowed_interfaceDeclaration (isPublic : Bool)
    (isInterface : node.kind = "interface_declaration") :
    law.Makes around Balanced True (interfaceDeclaration node isPublic) := by
  have typed := covered.typed
  rw [interfaceDeclaration]
  split
  iterate 2 exact allowed_refusal
  rename_i name body foundName foundBody
  refine allowed_view (fun agrees => ?_) fun view spelled => ?_
  · simp only [typeMembers?_congr agrees (typed.field foundBody),
      interfaceBases_congr agrees typed, typeParameters_congr agrees typed]
  split
  · exact allowed_refusal
  rename_i members found
  have head (legible : law.legible) := (((((unmarked_visibility
    isPublic).append (by decide : Unmarked "typedef ")).append (unmarked_name "type_identifier"
      (by decide) (by decide) (covered.sound legible) isInterface foundName)).balanced.append
    (balanced_typeParameters (spelled legible) (covered.sound legible) "type_parameters")).append
    (by decide : Balanced " = ")).append
    (balanced_interfaceBases (spelled legible) (covered.sound legible))
  dsimp only
  generalize visibility isPublic ++ "typedef " ++ name.text ++
    typeParameters view (node.field? "type_parameters") ++ " = " ++
    String.join ((interfaceBases view node).map (· ++ " & ")) = header at head ⊢
  split
  · refine makes_pure (fun legible => ?_) trivial
    simp +decide [Haxe.Balanced, (head legible).read_append]
  · refine allowed_codeText fun legible => ?_
    have inside := Haxe.Code.closed_lines
      (balanced_typeMembers? (spelled legible) ((covered.sound legible).field foundBody) found)
    simp +decide [Closed, (head legible).read_append, lines, inside.read]

theorem allowed_aliasDeclaration (isPublic : Bool)
    (isAlias : node.kind = "type_alias_declaration") :
    law.Makes around Balanced True (aliasDeclaration node isPublic) := by
  have typed := covered.typed
  have front := unmarked_visibility isPublic
  rw [aliasDeclaration]
  split
  · rename_i name value foundName foundValue
    have plain (legible : law.legible) := unmarked_name "type_identifier" (by decide) (by decide)
      (covered.sound legible) isAlias foundName
    split
    · exact allowed_codeText fun legible => closed_enumeration
        ⟨plain legible, (by decide : Unmarked "String"), balanced_literalMembers [] _⟩ front
    · refine allowed_view (fun agrees => ?_) fun view spelled =>
        makes_pure (fun legible => ?_) trivial
      · rw [typeParameters_congr agrees typed, (typed.field foundValue).top _ _ agrees]
      · have head := ((front.append (by decide : Unmarked "typedef ")).append
          (plain legible)).balanced.append
          (balanced_typeParameters (spelled legible) (covered.sound legible) "type_parameters")
        have type := ((covered.sound legible).field foundValue).top.type view (spelled legible)
        exact ((head.append (by decide)).append type).append (by decide)
  · exact allowed_refusal

theorem allowed_enumDeclaration (isPublic : Bool) (isEnumeration : node.kind = "enum_declaration") :
    law.Makes around Balanced True (enumDeclaration node isPublic) := by
  rw [enumDeclaration]
  split
  · rename_i name body foundName _
    split
    · exact allowed_codeText fun legible => closed_enumeration (balanced_enumeration
        (unmarked_name "identifier" (by decide) (by decide) (covered.sound legible) isEnumeration
          foundName) ‹_›) (unmarked_visibility isPublic)
    · exact allowed_unsupportedToken
  · exact allowed_refusal

theorem allowed_variableLine (isConstant isExported : Bool)
    (isDeclarator : node.kind = "variable_declarator") :
    law.Vets around node Balanced (variableLine isConstant isExported node) := by
  rw [variableLine]
  split
  · exact allowed_refusal
  rename_i name foundName
  refine allowed_guard fun isName => ?_
  have whole (value : ∀ part ∈ (Slot.field "value").pick node, law.Settled part) :
      law.Settled node :=
    settled_declarator isDeclarator foundName (settled_name (by simpa using isName)) value
  refine law.surroundings (fun first second agrees => ?_) fun context _ => ?_
  · simp only [agrees.exports]
  refine allowed_view (fun agrees => ?_) fun view spelled => ?_
  · simp only [typeSuffix_congr agrees covered.typed]
  have word : Unmarked (if isConstant then "final " else "var ") := by cases isConstant <;> decide
  dsimp only
  generalize (isExported || context.file.exports.isPublic name.text) = isPublic
  generalize (if isConstant then "final " else "var ") = keyword at word ⊢
  have head (legible : law.legible) := (((unmarked_visibility isPublic).append
    word).append (Haxe.unmarked_sanitize name.text)).balanced.append
    (balanced_typeSuffix (spelled legible) (covered.sound legible) "type")
  split
  · rename_i value found
    exact makes_map (covered.field found).top.expression
      (fun legible text => (((head legible).append (by decide)).append text).append (by decide))
      fun settled => whole (forall_of_eq_some found settled)
  · exact allowed_guard fun _ => makes_pure (fun legible => (head legible).append (by decide))
      (whole (forall_of_eq_none ‹_›))

theorem allowed_variableLines (isExported : Bool) (isDeclaration : node.kind ∈ variableKinds) :
    law.Vets around node Balanced (variableLines node isExported) := by
  refine makes_map (allowed_each fun part member => ?_)
    (fun _ each => balanced_joinWith (by decide) each) (settled_declaration isDeclaration)
  obtain ⟨inside, isDeclarator⟩ := mem_filter.mp member
  exact allowed_variableLine (covered.named inside) _ _ (eq_of_beq isDeclarator)

theorem allowed_topDeclaration (isExported : Bool) :
    law.Makes around BalancedItems (node.kind ∈ valueKinds → law.Settles ⟨[], node⟩)
      (topDeclaration node isExported) := by
  have noValue {kind : String} (same : node.kind = kind) (other : kind ∉ valueKinds)
      (isValue : node.kind ∈ valueKinds) : law.Settles ⟨[], node⟩ :=
    absurd isValue (same ▸ other)
  rw [topDeclaration]
  refine law.surroundings (fun first second agrees => ?_) fun context _ => ?_
  · simp only [agrees.exports]
  dsimp only
  split
  · rename_i same
    exact allowed_only (allowed_namedFunction (unmarked_visibility _) _
      (by simp [same, functionKinds]) covered) fun settled _ => settled _
  · exact allowed_refusal
  · exact allowed_only (allowed_classDeclaration covered _ ‹_›) fun settles _ => settles
  · exact allowed_refusal
  · exact allowed_only (allowed_interfaceDeclaration covered _ ‹_›) fun _ =>
      noValue ‹_› (by decide)
  · exact allowed_only (allowed_aliasDeclaration covered _ ‹_›) fun _ => noValue ‹_› (by decide)
  · exact allowed_only (allowed_enumDeclaration covered _ ‹_›) fun _ => noValue ‹_› (by decide)
  iterate 2
    exact allowed_only (allowed_variableLines covered _ (by simp [*, variableKinds]))
      fun settled _ => settled _
  iterate 2 exact allowed_nothing (noValue ‹_› (by decide))
  all_goals exact allowed_refusal

theorem allowed_defaultValue : law.Vets around node BalancedItems (defaultValue node) := by
  rw [defaultValue]
  split
  · exact allowed_nothing (settled_name ‹_›)
  iterate 2
    exact allowed_only (allowed_namedFunction (by decide) _ (by simp [*, functionKinds]) covered) id
  · exact allowed_refusal
  · have head : Balanced ("final " ++ Haxe.defaultMember ++ " = ") := by decide
    exact makes_map covered.top.expression
      (fun _ text => forall_mem_singleton.mpr ((head.append text).append (by decide))) id

theorem allowed_exportStatement (isExport : node.kind = "export_statement") :
    law.Makes around BalancedItems (isValueItem node → law.Settles ⟨[], node⟩)
      (exportStatement node) := by
  have item : isValueItem node =
      (node.field? "declaration").elim (node.has "default")
        fun declaration => valueKinds.contains declaration.kind := by
    have noValue : "export_statement" ∉ valueKinds := by decide
    simp [isValueItem, isExport, noValue]
  simp only [exportStatement, item]
  refine allowed_guard fun _ => ?_
  refine allowed_guard fun _ => ?_
  split
  · rename_i declaration found
    have inside := covered.field found
    have whole (settles : law.Settles ⟨[], declaration⟩) : law.Settles ⟨[], node⟩ :=
      settles_exportStatement isExport (forall_of_eq_some (by rw [found]; rfl) settles)
    rw [exportedDeclaration]
    split
    · rename_i isDefault
      simp only [Bool.and_eq_true, beq_iff_eq] at isDefault
      exact allowed_only (allowed_namedFunction (by decide) _
        (by simp [isDefault.1.2, functionKinds]) inside) fun settled _ => whole (settled _)
    · exact makes_imp (allowed_topDeclaration inside _) fun settles isValue =>
        whole (settles (by simpa [found] using isValue))
  · rename_i missing
    have whole (settles : ∀ part ∈ (Slot.field "value").pick node, law.Settled part) :
        law.Settles ⟨[], node⟩ :=
      settles_exportStatement isExport fun part member =>
        settles part (by simpa [Slot.pick, missing] using member) _
    split
    · split
      · rename_i value found
        exact makes_imp (allowed_defaultValue (covered.field found)) fun settled _ =>
          whole (forall_of_eq_some found settled)
      · exact allowed_nothing fun _ => whole (forall_of_eq_none ‹_›)
    · rename_i plain
      refine allowed_guard fun _ => ?_
      exact allowed_nothing fun isDefault => absurd (by simpa [missing] using isDefault) plain

theorem allowed_topLevel :
    law.Makes around BalancedItems (isValueItem node → law.Settles ⟨[], node⟩) (topLevel node) := by
  have noItem {kind : String} (same : node.kind = kind)
      (other : kind ∉ "export_statement" :: valueKinds) (isItem : isValueItem node) :
      law.Settles ⟨[], node⟩ := by
    rw [mem_cons, not_or] at other
    simp [isValueItem, same, other] at isItem
  rw [topLevel]
  split
  · exact allowed_guard fun _ => allowed_nothing (noItem ‹_› (by decide))
  · exact allowed_refusal
  · exact allowed_exportStatement covered ‹_›
  iterate 3 exact allowed_nothing (noItem ‹_› (by decide))
  iterate 3 exact allowed_refusal
  · have noExport : node.kind ≠ "export_statement" := by assumption
    refine makes_imp (allowed_topDeclaration covered _) fun settles isItem => settles ?_
    simpa [isValueItem, noExport] using isItem

end Declarations

section Files

theorem spelledAlias_congr (agrees : first.Agrees second) (entry : TypeScript.ExportEntry) :
    spelledAlias first entry = spelledAlias second entry := by
  simp only [spelledAlias, agrees.spelling?, exportSpecifier?, SourceFile.statements,
    agrees.context.tree]

theorem allowed_exportAlias (entry : TypeScript.ExportEntry) :
    law.Makes around Balanced True (exportAlias entry) := by
  have exported := Haxe.unmarked_sanitize entry.exported
  have declared := Haxe.unmarked_sanitize entry.localName
  have renamed (_ : law.legible) : Balanced ("typedef " ++ Haxe.sanitize entry.exported ++ " = " ++
      Haxe.sanitize entry.localName ++ ";") :=
    (((((by decide : Unmarked "typedef ").append exported).append
      (by decide)).append declared).append (by decide)).balanced
  rw [exportAlias]
  refine allowed_view (fun agrees => ?_) fun view spelled => ?_
  · simp only [agrees.context.resolveLocal, agrees.context.index, spelledAlias_congr agrees]
  dsimp only
  split
  · have head := (((by decide : Unmarked "class ").append exported).append
      (by decide : Unmarked " extends ")).append declared
    exact makes_pure (fun _ => head.balanced.append (by decide)) trivial
  iterate 2 exact makes_pure renamed trivial
  · split
    · exact makes_pure (fun legible => balanced_spelledAlias (spelled legible) ‹_›) trivial
    · exact law.refusal _

/-- What is lowered of a file once its tree is known. -/
def itemsOf (tree : Node) : Lowering (List String) := do
  let items ← forEach (rendered tree).named topLevel
  return items.flatten ++ (← exportAliases)

theorem allowed_itemsOf (tree : Node) (hosts : (rendered tree).Throughout law.Hosts)
    (legible : law.legible → tree.Throughout Legible) :
    law.Makes around BalancedItems (∀ item ∈ (rendered tree).named, isValueItem item →
      law.Settles ⟨[], item⟩) (itemsOf tree) := by
  have covered := rendered_covered tree hosts legible
  refine makes_bind (allowed_each fun item member => allowed_topLevel (covered.named member))
    fun _ each settles => ?_
  have aliases : law.Makes around BalancedItems True exportAliases := by
    refine law.surroundings (fun first second agrees => ?_) fun context _ => ?_
    · simp only [agrees.exports]
    · exact makes_imp (allowed_each fun entry _ => allowed_exportAlias entry) fun _ => trivial
  exact makes_map aliases (fun here others => forall_mem_append.mpr
    ⟨forall_mem_flatten.mpr (each here), others⟩) fun _ => settles

theorem fileItems_eq : fileItems = read >>= fun context => itemsOf context.file.tree := rfl

/-- The context that a file of a project is lowered in, once its imports are known. -/
def fileContext (program : Program) (registry : Foreign.Registry) (indent : String) (index : Nat)
    (file : SourceFile) (imports : Imports) : Context where
  program := program
  registry := registry
  index := index
  file := file
  indent := indent
  spellings := imports.spellings
  takenTemps := tempNamesIn file.source

theorem lowerFile_eq {imports : Imports} (found : importsOf program registry file = .ok imports) :
    lowerFile program registry indent index file =
      let run :=
        fileItems.evaluate (fileContext program registry indent index file imports) .initial
      ⟨run.1.map fun items => ⟨file.address, moduleText file.address imports.lines items⟩,
        run.2.gaps⟩ := by
  rw [lowerFile, found]
  rfl

theorem lowerFile_eq_ok {output : Haxe.File}
    (made : (lowerFile program registry indent index file).result = .ok output) :
    ∃ imports items state, importsOf program registry file = .ok imports ∧
      fileItems.evaluate (fileContext program registry indent index file imports) .initial =
        (.ok items, state) ∧
      output = ⟨file.address, moduleText file.address imports.lines items⟩ := by
  cases found : importsOf program registry file with
  | error reason =>
    rw [lowerFile, found] at made
    cases made
  | ok imports =>
    rw [lowerFile_eq found] at made
    dsimp only at made
    cases run : fileItems.evaluate (fileContext program registry indent index file imports)
        .initial with
    | mk result state =>
      rw [run] at made
      cases result with
      | error reason => cases made
      | ok items =>
        cases made
        exact ⟨imports, items, state, rfl, run, rfl⟩

end Files

end Haxify.Lower
