import Haxify.Proofs.Builtins

/-!
# Declared names and references

A declaration at the top of a file is written under one name, and every reference to it should
be written alike: a value in the file, a type in the file, and the import lines and paths of
other files. Values, import lines and paths use the legal form of the name, and functions and
variables are declared under it. Classes, interfaces, type aliases and enumerations are declared
under the name as it stands, and so are types. All agree exactly when the name is a legal
identifier.
-/

namespace Haxify.Lower

open Lowering List
open TypeScript (Node DeclarationKind boundNames declaredNames declarationKind? exportsOf)
open Haxe (Code sanitize)
open Text (joinWith)

variable {statement : Node}

/-- The characters that stand behind the name in a declaration. -/
def nameEnds : List Char := [' ', '<', '(', ':', ';']

/-- What stands behind the name in a declaration. -/
def EndsName (after : String) : Prop := ∃ char ∈ nameEnds, after.toList.head? = some char

/-- What stands in front of a line. -/
def StartsLine (before : String) : Prop := before = "" ∨ ∃ earlier, before = earlier ++ "\n"

/-- A text has a line that declares a name with a keyword. -/
def Declares (keyword name text : String) : Prop :=
  ∃ before isPublic after, StartsLine before ∧ EndsName after ∧
    text = before ++ (visibility isPublic ++ (keyword ++ (name ++ after)))

/-- The words that a declaration of a kind may begin with. -/
def keywords : DeclarationKind → List String
  | .classType => ["class "]
  | .interfaceType => ["typedef "]
  | .typeAlias => ["typedef ", "enum abstract "]
  | .enumType => ["enum abstract "]
  | .function => ["function "]
  | .variable => ["var ", "final "]

section Texts

variable {keyword name text : String} {after : String}

variable (declares : Declares keyword name text)
include declares

theorem Declares.append (more : String) : Declares keyword name (text ++ more) := by
  obtain ⟨before, isPublic, after, starts, ⟨char, listed, head⟩, rfl⟩ := declares
  refine ⟨before, isPublic, after ++ more, starts, ⟨char, listed, ?_⟩, ?_⟩
  · rw [String.toList_append, head?_append, head]
    rfl
  · simp only [String.append_assoc]

theorem Declares.below {above : String}
    (starts : StartsLine above) : Declares keyword name (above ++ text) := by
  obtain ⟨before, isPublic, after, inside, ends, rfl⟩ := declares
  refine ⟨above ++ before, isPublic, after, ?_, ends, (String.append_assoc).symm⟩
  rcases inside with rfl | ⟨earlier, rfl⟩
  · rwa [String.append_empty]
  · exact .inr ⟨above ++ earlier, (String.append_assoc).symm⟩

theorem Declares.joinWith {texts : List String}
    (listed : text ∈ texts) : Declares keyword name (joinWith "\n" texts) := by
  induction texts with
  | nil => cases listed
  | cons first rest rest_declares =>
    cases rest with
    | nil => exact mem_singleton.mp listed ▸ declares
    | cons next others =>
      rw [Text.joinWith]
      rcases mem_cons.mp listed with rfl | later
      · rw [String.append_assoc]
        exact declares.append _
      · exact (rest_declares later).below (.inr ⟨first, rfl⟩)

omit declares

theorem declares_of_start (isPublic : Bool) (keyword name : String) (ends : EndsName after) :
    Declares keyword name (visibility isPublic ++ (keyword ++ (name ++ after))) :=
  ⟨"", isPublic, after, .inl rfl, ends, (String.empty_append).symm⟩

theorem endsName_of_head {char : Char} {first more : String} (head : first.toList.head? = some char)
    (listed : char ∈ nameEnds) : EndsName (first ++ more) := by
  refine ⟨char, listed, ?_⟩
  rw [String.toList_append, head?_append, head]
  rfl

theorem EndsName.behind_typeParameters (ends : EndsName after) (view : View)
    (node : Option Part) : EndsName (typeParameters view node ++ after) := by
  unfold typeParameters withArguments
  split
  · rwa [String.empty_append]
  · rw [String.empty_append, String.append_assoc, String.append_assoc]
    exact endsName_of_head rfl (by decide)

theorem EndsName.behind_typeSuffix (ends : EndsName after) (view : View)
    (node : Option Part) : EndsName (typeSuffix view node ++ after) := by
  cases node with
  | none => rwa [typeSuffix, Option.map_none, Option.getD_none, String.empty_append]
  | some node =>
    rw [typeSuffix, Option.map_some, Option.getD_some, String.append_assoc]
    exact endsName_of_head rfl (by decide)

end Texts

section Writing

open Haxe (Writer)

mutual

theorem exists_lines_write (writer : Writer) :
    (code : Code) → ∃ more, (code.write writer).lines = writer.lines ++ more
  | .line text => by
    rw [Code.write, Writer.line]
    exact ⟨_, rfl⟩
  | .nest body => by
    rw [Code.write, Writer.dedent]
    exact exists_lines_writeAll writer.indent body

theorem exists_lines_writeAll (writer : Writer) :
    (codes : List Code) → ∃ more, (Code.writeAll writer codes).lines = writer.lines ++ more
  | [] => by
    rw [Code.writeAll]
    exact ⟨[], (append_nil _).symm⟩
  | code :: rest => by
    obtain ⟨first, first_eq⟩ := exists_lines_write writer code
    obtain ⟨later, later_eq⟩ := exists_lines_writeAll (code.write writer) rest
    rw [Code.writeAll, later_eq, first_eq, append_assoc]
    exact ⟨_, rfl⟩

end

theorem exists_joinWith_append {separator : String} {first : List String} (some : first ≠ [])
    (rest : List String) :
    ∃ more, joinWith separator (first ++ rest) = joinWith separator first ++ more := by
  induction first with
  | nil => exact absurd rfl some
  | cons text others others_join =>
    cases others with
    | nil =>
      cases rest with
      | nil => exact ⟨"", (String.append_empty).symm⟩
      | cons next later =>
        refine ⟨separator ++ joinWith separator (next :: later), ?_⟩
        rw [cons_append, nil_append, joinWith, joinWith, String.append_assoc]
    | cons next later =>
      obtain ⟨more, joined⟩ := others_join (cons_ne_nil next later)
      refine ⟨more, ?_⟩
      rw [cons_append, cons_append, joinWith, joinWith, ← cons_append,
        joined, ← String.append_assoc]

theorem exists_render_line (unit text : String) (rest : List Code) :
    ∃ more, Code.render unit (.line text :: rest) = text ++ more := by
  let first := (Writer.empty unit).line text
  have lines : first.lines = Text.splitOn '\n' text := by
    have placed : Writer.placed (Writer.empty unit).margin = id := by
      funext line
      rw [Writer.placed, Writer.margin, Writer.empty, Text.copies, String.empty_append]
      split
      · exact Eq.symm ‹line = ""›
      · rfl
    change [] ++ (Text.splitOn '\n' text).map (Writer.placed (Writer.empty unit).margin) = _
    rw [placed, map_id, nil_append]
  obtain ⟨more, written⟩ := exists_lines_writeAll first rest
  obtain ⟨tail, joined⟩ := @exists_joinWith_append "\n" _ (Text.splitOn_ne_nil '\n' text) more
  refine ⟨tail, ?_⟩
  rw [Code.render, Code.writeAll, Code.write, Writer.finish, written, lines, joined]
  exact congrArg (· ++ tail) (Text.joinWith_splitOn '\n' text)

end Writing

section Rules

variable {context : Context} {node name : Part}

def Begins (context : Context) (start : String) (body : Lowering String) : Prop :=
  Gives context (fun text => ∃ more, text = start ++ more) body

theorem begins_codeText (text : String) (rest : List Code) :
    Begins context text (codeText (.line text :: rest)) := by
  intro state given after run
  cases run
  exact exists_render_line _ text rest

theorem begins_blockText (header : String) (body : List Code) :
    Begins context (header ++ " \x7b") (blockText header body) := by
  intro state given after run
  cases run
  exact exists_render_line _ _ _

theorem begins_block (header : String) (body : List Code) :
    Begins context header (blockText header body) := by
  intro state given after run
  obtain ⟨more, rfl⟩ := begins_blockText _ _ _ _ _ run
  exact ⟨" \x7b" ++ more, String.append_assoc⟩

theorem begins_expressionBody (header : String) (prelude : List String) (body : Part) :
    Begins context header (expressionBody header prelude body) := by
  refine gives_next fun value => ?_
  split
  · exact gives_pure ⟨" return " ++ value, String.append_assoc⟩
  · exact begins_block _ _

theorem begins_blockBody (header : String) (prelude injected : List String) (body : Part) :
    Begins context header (blockBody header prelude injected body) := by
  rw [blockBody]
  split
  · exact gives_pure ⟨_, rfl⟩
  · exact gives_next fun code => begins_block _ _

theorem begins_functionLike (signature : String) (node : Part) (role : FunctionRole) :
    Gives context (fun function => ∃ more, function.text = signature ++ ("(" ++ more))
      (functionLike signature node role) := by
  refine gives_withScope (gives_withJump _ ?_)
  refine gives_next fun parameters => gives_next fun view => ?_
  dsimp only
  split
  · exact gives_refusal
  rename_i body _
  have behind {header rest : String} {written : Lowering String}
      (begins : Begins context header written) (fields : List String)
      (same : header = signature ++ ("(" ++ rest)) :
      Gives context (fun function => ∃ more, function.text = signature ++ ("(" ++ more))
        (do return FunctionText.mk (← written) fields) := by
    refine gives_bind begins fun text given => gives_pure ?_
    obtain ⟨more, rfl⟩ := given
    exact ⟨rest ++ more, by rw [same, String.append_assoc, String.append_assoc]⟩
  have header : signature ++ "(" ++ joinWith ", " parameters.list ++ ")" ++
      (if role = .constructor then "" else typeSuffix view (node.field? "return_type")) =
    signature ++ ("(" ++ (joinWith ", " parameters.list ++ ")" ++
      if role = .constructor then "" else typeSuffix view (node.field? "return_type"))) := by
    simp only [String.append_assoc]
  split
  · exact behind (begins_blockBody _ _ _ _) _ header
  · exact behind (begins_expressionBody _ _ _) _ header

theorem declares_namedFunction (isPublic : Bool) (name : String) (node : Part) :
    Gives context (Declares "function " (sanitize name))
      (namedFunction (visibility isPublic) name node) := by
  refine gives_next fun _ => gives_next fun view => ?_
  refine gives_bind (begins_functionLike _ node .plain) fun function begins => gives_pure ?_
  obtain ⟨more, text⟩ := begins
  have ends : EndsName ("(" ++ more) := endsName_of_head rfl (by decide)
  rw [text]
  simp only [String.append_assoc]
  exact declares_of_start isPublic _ _ (ends.behind_typeParameters view _)

theorem exists_foldl_extends (header : String) (bases : List String) :
    ∃ more, bases.foldl (fun header base => header ++ " extends " ++ base) header = header ++ more ∧
      EndsName (more ++ " \x7b") := by
  induction bases generalizing header with
  | nil =>
    refine ⟨"", (String.append_empty).symm, ?_⟩
    rw [String.empty_append]
    exact ⟨' ', by decide, rfl⟩
  | cons base rest rest_extends =>
    obtain ⟨more, written, _⟩ := rest_extends (header ++ " extends " ++ base)
    refine ⟨" extends " ++ (base ++ more), ?_, ?_⟩
    · rw [foldl_cons, written, String.append_assoc, String.append_assoc]
    · rw [String.append_assoc]
      exact endsName_of_head rfl (by decide)

variable (named : node.field? "name" = some name) (isPublic : Bool)
include named

theorem declares_classDeclaration :
    Gives context (Declares "class " name.text) (classDeclaration node isPublic) := by
  rw [classDeclaration, named]
  refine gives_guard fun _ => ?_
  refine gives_next fun view => gives_next fun bases => ?_
  dsimp only
  split
  · exact gives_refusal
  refine gives_next fun members => ?_
  intro state text after run
  obtain ⟨more, rfl⟩ := begins_blockText _ _ _ _ _ run
  obtain ⟨tail, header, ends⟩ := exists_foldl_extends (visibility isPublic ++ "class " ++
    name.text ++ typeParameters view (node.field? "type_parameters")) bases
  refine Declares.append ?_ more
  rw [header]
  simp only [String.append_assoc]
  exact declares_of_start isPublic _ _ (ends.behind_typeParameters view _)

theorem declares_interfaceDeclaration :
    Gives context (Declares "typedef " name.text) (interfaceDeclaration node isPublic) := by
  rw [interfaceDeclaration, named]
  cases node.field? "body" with
  | none => exact gives_refusal
  | some body =>
    refine gives_next fun view => ?_
    dsimp only
    split
    · exact gives_refusal
    rename_i members _
    have declares : Declares "typedef " name.text (visibility isPublic ++ "typedef " ++ name.text ++
        typeParameters view (node.field? "type_parameters") ++ " = " ++
        String.join ((interfaceBases view node).map (· ++ " & ")) ++ "\x7b") := by
      simp only [String.append_assoc]
      exact declares_of_start isPublic _ _
        (EndsName.behind_typeParameters (endsName_of_head rfl (by decide)) view _)
    split
    · exact gives_pure (declares.append _)
    intro state text after run
    obtain ⟨more, rfl⟩ := begins_codeText _ _ _ _ _ run
    exact declares.append more

omit named in
theorem declares_enumAbstract (enumeration : EnumAbstract) (isPublic : Bool) :
    Gives context (Declares "enum abstract " enumeration.name)
      (codeText (enumeration.code (visibility isPublic))) := by
  intro state text after run
  obtain ⟨more, rfl⟩ := begins_codeText _ _ _ _ _ run
  refine Declares.append ?_ more
  simp only [String.append_assoc]
  exact declares_of_start isPublic _ _ (endsName_of_head rfl (by decide))

theorem declares_aliasDeclaration :
    Gives context (fun text => ∃ keyword ∈ keywords .typeAlias, Declares keyword name.text text)
      (aliasDeclaration node isPublic) := by
  rw [aliasDeclaration, named]
  cases node.field? "value" with
  | none => exact gives_refusal
  | some value =>
    dsimp only
    split
    · rename_i literals _
      intro state text after run
      exact ⟨_, by simp [keywords],
        declares_enumAbstract (literalEnum name.text literals) isPublic _ _ _ run⟩
    · refine gives_next fun view => gives_pure ⟨"typedef ", by simp [keywords], ?_⟩
      simp only [String.append_assoc]
      exact declares_of_start isPublic _ _
        (EndsName.behind_typeParameters (endsName_of_head rfl (by decide)) view _)

omit named in
theorem name_enumeration {α : Type} {name : String} {nodes : List (TypeScript.Tree α)}
    {result : EnumAbstract} (found : enumeration name nodes = .ok result) : result.name = name := by
  obtain ⟨members, _, rest⟩ := Program.bind_eq_ok.mp found
  split at rest
  all_goals
    obtain ⟨_, _, same⟩ := Program.bind_eq_ok.mp rest
    cases same
    rfl

theorem declares_enumDeclaration :
    Gives context (Declares "enum abstract " name.text) (enumDeclaration node isPublic) := by
  rw [enumDeclaration, named]
  cases node.field? "body" with
  | none => exact gives_refusal
  | some body =>
    dsimp only
    split
    · rename_i result found
      have same := name_enumeration found
      rw [← same]
      exact declares_enumAbstract result isPublic
    · exact gives_unsupportedToken

omit named in
theorem declares_variableLine {declarator : Part}
    (named : declarator.field? "name" = some name) (isConstant isExported : Bool) :
    Gives context (fun text => name.kind = "identifier" ∧
      ∃ keyword ∈ keywords .variable, Declares keyword (sanitize name.text) text)
      (variableLine isConstant isExported declarator) := by
  rw [variableLine, named]
  dsimp only
  refine gives_guard fun isName => ?_
  have kind : name.kind = "identifier" := by simpa using isName
  refine gives_next fun found => gives_next fun view => ?_
  have declares {after : String} (ends : EndsName after) (isPublic : Bool) :
      ∃ keyword ∈ keywords .variable, Declares keyword (sanitize name.text)
        (visibility isPublic ++ (if isConstant then "final " else "var ") ++
          sanitize name.text ++ typeSuffix view (declarator.field? "type") ++ after) := by
    simp only [String.append_assoc]
    refine ⟨_, ?_, declares_of_start isPublic _ _ (ends.behind_typeSuffix view _)⟩
    cases isConstant <;> simp [keywords]
  have stop : EndsName ";" := ⟨';', by decide, rfl⟩
  split
  · refine gives_next fun value => gives_pure ⟨kind, ?_⟩
    have ends : EndsName (" = " ++ (value ++ ";")) := endsName_of_head rfl (by decide)
    rw [String.append_assoc, String.append_assoc]
    exact declares ends _
  · cases isConstant with
    | true => exact gives_refusal
    | false => exact gives_pure ⟨kind, declares stop _⟩

end Rules

/-- How a declaration spells a name. -/
def declaredSpelling (kind : DeclarationKind) (name : String) : String :=
  match kind with
  | .function | .variable => sanitize name
  | _ => name

/-- One of the items declares a name. -/
def DeclaredAmong (kind : DeclarationKind) (name : String) (items : List String) : Prop :=
  ∃ item ∈ items, ∃ keyword ∈ keywords kind, Declares keyword (declaredSpelling kind name) item

/-- The statements of a file, taken out of their exports. -/
def topDeclarations (tree : Node) : List Node :=
  tree.named.filterMap fun statement =>
    if statement.kind = "export_statement" then statement.field? "declaration" else some statement

section Files

variable {context : Context} {name : String} {kind : DeclarationKind}

theorem declares_variableLines
    (listed : name ∈ TypeScript.declaredVariables statement) (isExported : Bool) :
    Gives context (fun item => DeclaredAmong .variable name [item])
      (variableLines (rendered statement) isExported) := by
  obtain ⟨declarator, inside, bound⟩ := mem_flatMap.mp listed
  cases found : declarator.field? "name" with
  | none => simp [found] at bound
  | some target =>
    rw [found] at bound
    have member : rendered declarator ∈ (rendered statement).named.filter
        (·.kind == "variable_declarator") := by
      obtain ⟨named, isDeclarator⟩ := mem_filter.mp inside
      exact mem_filter.mpr ⟨mem_named_rendered named, by simpa using isDeclarator⟩
    intro state item after run
    obtain ⟨lines, between, each, rest⟩ := bind_eq_ok.mp run
    obtain ⟨rfl, rfl⟩ := pure_eq_ok.mp rest
    obtain ⟨line, written, _, _, wrote⟩ := exists_mem_of_forall₂ (forall₂_of_forEach each) member
    obtain ⟨isName, keyword, known, declares⟩ :=
      declares_variableLine (rendered_of_field? found) _ _ _ _ _ wrote
    have text : target.text = name := by
      rw [kind_rendered] at isName
      obtain ⟨token, value, children⟩ := target
      have kind : token.kind = "identifier" := isName
      have names : boundNames (.node token value children) = [token.text] := by
        unfold boundNames
        rw [if_pos (by simp [kind])]
      have same : name = token.text := by simpa [names] using bound
      exact same.symm
    rw [text_rendered, text] at declares
    exact ⟨_, mem_singleton_self _, keyword, known, declares.joinWith written⟩

theorem declares_topDeclaration {declaration : Node}
    (listed : (name, kind) ∈ declaredNames declaration)
    (implemented : declaration.kind ≠ "function_signature") (isExported : Bool) :
    Gives context (DeclaredAmong kind name) (topDeclaration (rendered declaration) isExported) := by
  refine gives_next fun found => ?_
  dsimp only
  rw [kind_rendered]
  rw [declaredNames] at listed
  split at listed
  · rename_i isVariable
    obtain ⟨target, bound, same⟩ := mem_map.mp listed
    cases same
    have declares : Gives context (fun item => DeclaredAmong .variable name [item])
      (variableLines (rendered declaration) isExported) := declares_variableLines bound isExported
    rw [Bool.or_eq_true, beq_iff_eq, beq_iff_eq] at isVariable
    rcases isVariable with same | same
    all_goals
      rw [same]
      exact gives_bind declares fun item given => gives_pure given
  · split at listed
    · rename_i given target kindFound nameFound
      rw [mem_singleton, Prod.mk.injEq] at listed
      obtain ⟨rfl, rfl⟩ := listed
      have target_eq := rendered_of_field? nameFound
      have text := text_rendered target
      -- The rules look at the same node, and each gives one item.
      have single {keyword spelled : String} {rule : Lowering String} {kind : DeclarationKind}
          (declares : Gives context (Declares keyword spelled) rule)
          (known : keyword ∈ keywords kind) (same : spelled = declaredSpelling kind target.text) :
          Gives context (DeclaredAmong kind target.text) (do return [← rule]) := by
        refine gives_bind declares fun item given => gives_pure ?_
        exact ⟨item, mem_singleton_self item, keyword, known, same ▸ given⟩
      unfold declarationKind? at kindFound
      split at kindFound
      · rename_i isClass
        cases kindFound
        rw [isClass]
        exact single (declares_classDeclaration target_eq _) (by simp [keywords]) text
      · rename_i isAbstract
        rw [isAbstract]
        exact gives_refusal
      · rename_i isInterface
        cases kindFound
        rw [isInterface]
        exact single (declares_interfaceDeclaration target_eq _) (by simp [keywords]) text
      · rename_i isAlias
        cases kindFound
        rw [isAlias]
        refine gives_bind (declares_aliasDeclaration target_eq _) fun item given => gives_pure ?_
        exact ⟨item, mem_singleton_self item, text ▸ given⟩
      · rename_i isEnum
        cases kindFound
        rw [isEnum]
        exact single (declares_enumDeclaration target_eq _) (by simp [keywords]) text
      · rename_i isFunction
        cases kindFound
        rw [isFunction, target_eq, Option.map_some, Option.getD_some, text]
        exact single (declares_namedFunction _ _ _) (by simp [keywords]) rfl
      · rename_i isGenerator
        rw [isGenerator]
        exact gives_refusal
      · rename_i isSignature
        exact absurd isSignature implemented
      · cases kindFound
    · cases listed

theorem declares_exportStatement {declaration : Node}
    (found : statement.field? "declaration" = some declaration)
    (listed : (name, kind) ∈ declaredNames declaration)
    (implemented : declaration.kind ≠ "function_signature") :
    Gives context (DeclaredAmong kind name) (exportStatement (rendered statement)) := by
  rw [exportStatement, rendered_of_field? found]
  dsimp only
  refine gives_guard fun _ => ?_
  refine gives_guard fun _ => ?_
  rw [exportedDeclaration]
  split
  · rename_i unnamed
    -- A function without a name declares none.
    simp only [kind_rendered, field?_rendered, Option.isNone_map, Bool.and_eq_true, beq_iff_eq,
      Option.isNone_iff_eq_none] at unnamed
    have empty : declaredNames declaration = [] := by
      rw [declaredNames, unnamed.1.2, unnamed.2]
      rfl
    rw [empty] at listed
    cases listed
  · exact declares_topDeclaration listed implemented true

/-- The kinds of statements that declare names, signatures apart. -/
def declaringKinds : List String :=
  ["lexical_declaration", "variable_declaration", "class_declaration",
    "abstract_class_declaration", "interface_declaration", "type_alias_declaration",
    "enum_declaration", "function_declaration", "generator_function_declaration"]

theorem mem_declaringKinds (listed : (name, kind) ∈ declaredNames statement) :
    statement.kind = "function_signature" ∨ statement.kind ∈ declaringKinds := by
  rw [declaredNames] at listed
  split at listed
  · rename_i isVariable
    rw [Bool.or_eq_true, beq_iff_eq, beq_iff_eq] at isVariable
    rcases isVariable with same | same <;> simp [same, declaringKinds]
  · split at listed
    · rename_i given target kindFound _
      unfold declarationKind? at kindFound
      split at kindFound
      case h_9 => cases kindFound
      all_goals
        rename_i same
        rw [same]
        decide
    · cases listed

theorem declares_fileItems {declaration : Node}
    (top : declaration ∈ topDeclarations context.file.tree)
    (listed : (name, kind) ∈ declaredNames declaration)
    (implemented : declaration.kind ≠ "function_signature") :
    Gives context (DeclaredAmong kind name) fileItems := by
  obtain ⟨statement, inside, found⟩ := mem_filterMap.mp top
  have each : Gives context (DeclaredAmong kind name) (topLevel (rendered statement)) := by
    split at found
    · rename_i isExport
      rw [topLevel, kind_rendered, isExport]
      exact declares_exportStatement found listed implemented
    · cases found
      have plain : topLevel (rendered declaration) =
          topDeclaration (rendered declaration) false := by
        have member := (mem_declaringKinds listed).resolve_left implemented
        rw [topLevel, kind_rendered]
        generalize declaration.kind = kind at member
        simp only [declaringKinds, mem_cons, not_mem_nil, or_false] at member
        rcases member with rfl | rfl | rfl | rfl | rfl | rfl | rfl | rfl | rfl <;> rfl
      rw [plain]
      exact declares_topDeclaration listed implemented false
  intro state items after run
  obtain ⟨_, between, same, run⟩ := bind_eq_ok.mp run
  cases same
  obtain ⟨results, _, lowered, run⟩ := bind_eq_ok.mp run
  obtain ⟨aliases, _, _, run⟩ := bind_eq_ok.mp run
  obtain ⟨rfl, _⟩ := pure_eq_ok.mp run
  obtain ⟨result, written, _, _, wrote⟩ :=
    exists_mem_of_forall₂ (forall₂_of_forEach lowered) (mem_named_rendered inside)
  obtain ⟨item, given, declares⟩ := each _ _ _ wrote
  exact ⟨item, mem_append_left _ (mem_flatten.mpr ⟨result, written, given⟩), declares⟩

end Files

section Surfaces

open TypeScript (ExportSurface)

variable {name : String} {kind : DeclarationKind}

theorem lookup_cons_isSome {known : String} {rest : List (String × DeclarationKind)} :
    (((known, kind) :: rest).lookup name).isSome ↔ name = known ∨ (rest.lookup name).isSome := by
  rw [lookup_cons]
  by_cases same : name = known
  · simp [same]
  · simp [beq_eq_false_iff_ne.mpr same, same]

theorem lookup_declare_isSome {declared : String} {declarations : List (String × DeclarationKind)} :
    ((ExportSurface.declare declared kind declarations).lookup name).isSome ↔
      name = declared ∨ (declarations.lookup name).isSome := by
  induction declarations with
  | nil => rw [ExportSurface.declare, lookup_cons_isSome]
  | cons first rest rest_iff =>
    rw [ExportSurface.declare, lookup_cons_isSome]
    split
    · rename_i again
      rw [lookup_cons_isSome, again, or_self_left]
    · rw [lookup_cons_isSome, rest_iff, or_left_comm]

theorem kindOf?_recording {surface : ExportSurface} {names : List (String × DeclarationKind)}
    (declared : (surface.kindOf? name).isSome ∨ name ∈ names.map (·.1)) :
    ((surface.recording names).kindOf? name).isSome := by
  unfold ExportSurface.kindOf? ExportSurface.recording at *
  generalize surface.declarations = declarations at declared
  induction names generalizing declarations with
  | nil => simpa using declared
  | cons first rest rest_declared =>
    rw [foldl_cons]
    apply rest_declared
    rw [lookup_declare_isSome]
    rcases declared with before | listed
    · exact .inl (.inr before)
    · rcases mem_cons.mp listed with same | later
      · exact .inl (.inl same)
      · exact .inr later

theorem declarations_listing (surface : ExportSurface) (source : Option String) (typeOnly : Bool)
    (specifier : Node) :
    (surface.listing source typeOnly specifier).declarations = surface.declarations := by
  unfold ExportSurface.listing
  split
  · rfl
  dsimp only
  split
  · rfl
  · split <;> rfl

theorem kindOf?_exporting {surface : ExportSurface}
    (declared : (surface.kindOf? name).isSome ∨ ∃ declaration,
      statement.field? "declaration" = some declaration ∧
        name ∈ (declaredNames declaration).map (·.1)) :
    ((surface.exporting statement).kindOf? name).isSome := by
  unfold ExportSurface.exporting
  dsimp only
  split
  · rename_i declaration found
    have recorded : ((surface.recording (declaredNames declaration)).kindOf? name).isSome := by
      apply kindOf?_recording
      rcases declared with before | ⟨given, same, listed⟩
      · exact .inl before
      · rw [found] at same
        cases same
        exact .inr listed
    unfold ExportSurface.offering
    dsimp only
    split
    · split <;> exact recorded
    · exact recorded
  · rename_i none
    have before : (surface.kindOf? name).isSome := by
      rcases declared with before | ⟨declaration, found, _⟩
      · exact before
      · rw [none] at found
        cases found
    split
    · split <;> exact before
    split
    · refine foldlRecOn (motive := fun surface : ExportSurface => (surface.kindOf? name).isSome)
        _ _ before fun surface before specifier _ => ?_
      rw [ExportSurface.kindOf?, declarations_listing]
      exact before
    · unfold ExportSurface.passingOn
      split
      · exact before
      · split <;> exact before
    · exact before

theorem exists_exportsOf_eq_foldl : ∃ add : ExportSurface → Node → ExportSurface,
    (∀ tree, exportsOf tree = tree.named.foldl add ExportSurface.empty) ∧
      ∀ surface node, add surface node =
        if node.kind = "import_statement" then surface
        else if node.kind = "export_statement" then surface.exporting node
        else surface.recording (declaredNames node) := by
  refine ⟨_, fun tree => rfl, fun surface node => ?_⟩
  split <;> simp_all

theorem kindOf?_exportsOf {tree declaration : Node} (top : declaration ∈ topDeclarations tree)
    (listed : (name, kind) ∈ declaredNames declaration) :
    ((exportsOf tree).kindOf? name).isSome := by
  obtain ⟨statement, inside, found⟩ := mem_filterMap.mp top
  have named : name ∈ (declaredNames declaration).map (·.1) := mem_map.mpr ⟨_, listed, rfl⟩
  obtain ⟨add, folded, rule⟩ := exists_exportsOf_eq_foldl
  have added (surface : ExportSurface) : ((add surface statement).kindOf? name).isSome := by
    rw [rule]
    split at found
    · rename_i isExport
      rw [isExport]
      exact kindOf?_exporting (.inr ⟨declaration, found, named⟩)
    · rename_i noExport
      cases found
      have noImport : declaration.kind ≠ "import_statement" := by
        intro isImport
        have other := mem_declaringKinds listed
        rw [isImport] at other
        exact absurd other (by decide)
      rw [if_neg noImport, if_neg noExport]
      exact kindOf?_recording (.inr named)
  have kept (surface : ExportSurface) (other : Node) (before : (surface.kindOf? name).isSome) :
      ((add surface other).kindOf? name).isSome := by
    rw [rule]
    split
    · exact before
    split
    · exact kindOf?_exporting (.inl before)
    · exact kindOf?_recording (.inl before)
  have fold (statements : List Node) (surface : ExportSurface)
      (known : (surface.kindOf? name).isSome ∨ statement ∈ statements) :
      ((statements.foldl add surface).kindOf? name).isSome := by
    induction statements generalizing surface with
    | nil => exact known.resolve_right not_mem_nil
    | cons first rest rest_known =>
      rw [foldl_cons]
      apply rest_known
      rcases known with before | member
      · exact .inl (kept surface first before)
      · rcases mem_cons.mp member with rfl | later
        · exact .inl (added surface)
        · exact .inr later
  rw [folded]
  exact fold tree.named ExportSurface.empty (.inr inside)

end Surfaces

theorem declaredSpelling_eq_iff (kind : DeclarationKind) (name : String) :
    declaredSpelling kind name = sanitize name ↔
      kind = .function ∨ kind = .variable ∨ Haxe.isIdentifier name := by
  have self := Haxe.sanitize_eq_self_iff name
  rw [eq_comm] at self
  cases kind <;> simp [declaredSpelling, self]

theorem exports_of_assemble {grammar : Grammar} {root : Path} {basePackage : String}
    {sources : List (Path × String)} {program : Program}
    (assembled : Program.assemble grammar root basePackage sources = .ok program) :
    ∀ file ∈ program.files, file.exports = exportsOf file.tree := by
  intro file member
  obtain ⟨_, _, _, _, _, _, rfl⟩ := Program.exists_fileOf_of_assemble assembled file member
  rfl

/-- The references to a declaration of a file: values and types in the file itself, and import
lines and paths of other files. -/
structure ReferredTo (program : Program) (context : Context) (name : String) : Prop where
  values : ∀ (state : State) (node : Node), node.kind = "identifier" → node.text = name →
    name ≠ "undefined" → View.spelling? ⟨context, state.scopes⟩ name = none →
      (rendered node).value.expression.evaluate context state = (.ok (sanitize name), state)
  /-- As a type that no scope and no import hides, it is written as it stands. -/
  types : ∀ scopes, View.spelling? ⟨context, scopes⟩ name = none → name ∉ globalTypes →
    ∀ arguments, namedType ⟨context, scopes⟩ name arguments = withArguments name arguments
  member : ∃ kind, Exports.resolveLocal program context.index name =
    some (.member context.index (sanitize name) kind)
  lines : ∀ registry importer imports binding target imported localName kind,
    importsOf program registry importer = .ok imports → binding ∈ importer.imports →
    program.resolveFrom importer.path binding.specifier = .project target →
    (program.files[target]?).any (·.isLowered) → (imported, localName) ∈ wantedNames binding →
    Exports.resolve program target imported =
      some (.member context.index (sanitize name) kind) →
        Imports.line (context.file.address.member (sanitize name)) (sanitize name)
          localName ∈ imports.lines
  paths : ∀ (view : View) whole target imported kind, view.context.program = program →
    view.spelling? whole = some (.projectModule target) →
    Exports.resolve program target imported =
      some (.member context.index (sanitize name) kind) →
        view.moduleMember whole imported = .ok (some (context.file.address.member (sanitize name)))

namespace Sample

def dollarClass : Node :=
  node "class_declaration" "declaration" ""
    [node "type_identifier" "name" "$A" [], node "class_body" "body" "" []]

def dollarText : String := "export class $A \x7b\x7d let x = new $A();"

def dollarFile : SourceFile :=
  Program.fileOf "app" ⟨"/project/main.ts"⟩ ⟨"main.ts"⟩ .script dollarText (node "program" "" ""
    [node "export_statement" "" "" [dollarClass], variableWith "x" (node "new_expression" "value" ""
      [identifier "constructor" "$A", node "arguments" "arguments" "" []])])

def dollarProgram : Program := ⟨none, ⟨"/project"⟩, "app", [dollarFile]⟩

theorem dollarProgram_eq : Program.assemble (reading dollarText dollarFile.tree) ⟨"/project"⟩ "app"
    [(⟨"/project/main.ts"⟩, dollarText)] = .ok dollarProgram := by
  rw [Program.assemble_of_sorted (by simp)]
  rfl

end Sample

open Sample

/-- Every declaration at the top of a file that is lowered is written under its spelling, and
the references to it are written in the legal form of its name, types apart, which are written
as they stand. The declaration agrees with the references from other files and with the values
exactly when it is a function or a variable or has a legal identifier for its name. -/
theorem declared_and_referenced_spellings {grammar : Grammar} {root : Path} {basePackage : String}
    {sources : List (Path × String)} {program : Program}
    (assembled : Program.assemble grammar root basePackage sources = .ok program)
    {index : Nat} {file : SourceFile} (here : program.files[index]? = some file)
    {registry : Foreign.Registry} {indent : String} {output : Haxe.File}
    (lowered : (lowerFile program registry indent index file).result = .ok output)
    {declaration : Node} (top : declaration ∈ topDeclarations file.tree) {name : String}
    {kind : DeclarationKind} (declared : (name, kind) ∈ declaredNames declaration)
    (implemented : declaration.kind ≠ "function_signature") :
    (∃ imports items, importsOf program registry file = .ok imports ∧
      output.text = moduleText file.address imports.lines items ∧
      DeclaredAmong kind name items ∧
      ReferredTo program (fileContext program registry indent index file imports) name) ∧
    (declaredSpelling kind name = sanitize name ↔
      kind = .function ∨ kind = .variable ∨ Haxe.isIdentifier name) := by
  refine ⟨?_, declaredSpelling_eq_iff kind name⟩
  obtain ⟨imports, items, state, found, run, rfl⟩ := lowerFile_eq_ok lowered
  have written : DeclaredAmong kind name items :=
    declares_fileItems top declared implemented _ _ _ run
  refine ⟨imports, items, found, rfl, written, ?_⟩
  have path : program.memberPath index (sanitize name) = file.address.member (sanitize name) := by
    rw [Program.memberPath, here]
  constructor
  case values =>
    rintro state node isName rfl other unspelled
    rw [expression_of_identifier isName, evaluate_nameValue, text_rendered, unspelled,
      if_neg (by simpa using other)]
    rfl
  case types =>
    intro scopes unspelled other arguments
    exact namedType_of_not_mem unspelled other arguments
  case member =>
    have exports_eq := exports_of_assemble assembled file (mem_of_getElem? here)
    have known := kindOf?_exportsOf top declared
    rw [← exports_eq] at known
    obtain ⟨kind, found⟩ := Option.isSome_iff_exists.mp known
    refine ⟨kind, ?_⟩
    change Exports.resolveLocal program index name = _
    rw [Exports.resolveLocal, here]
    dsimp only
    rw [Exports.localOrigin, found]
    rfl
  case lines =>
    intro registry importer imports binding target imported localName kind found listed
      resolved made wanted exported
    have line := (has_importsOf found (.line _)).mpr
      ⟨binding, listed, .named resolved made wanted (.member exported)⟩
    change Imports.line (file.address.member _) _ _ ∈ _
    rw [← path]
    exact line
  case paths =>
    intro view whole target imported kind same spelled exported
    rw [View.moduleMember, spelled]
    dsimp only
    rw [same, exported]
    change Except.ok (some (program.memberPath index (sanitize name))) = _
    rw [path]
    rfl

/-- A class with a dollar sign in its name is declared under it, and other files refer to it by
the legal form. -/
theorem dollar_class_is_referred_to :
    ∃ output, (lowerFile dollarProgram .empty "  " 0 dollarFile).result = .ok output ∧
      (∃ imports items, importsOf dollarProgram .empty dollarFile = .ok imports ∧
        output.text = moduleText dollarFile.address imports.lines items ∧
        DeclaredAmong .classType "$A" items ∧ ReferredTo dollarProgram
          (fileContext dollarProgram .empty "  " 0 dollarFile imports) "$A") ∧
      declaredSpelling .classType "$A" ≠ sanitize "$A" := by
  have accepted : (lowerFile dollarProgram .empty "  " 0 dollarFile).result.isOk := by
    decide +kernel
  obtain ⟨output, lowered⟩ := Program.exists_eq_ok accepted
  have here : dollarProgram.files[0]? = some dollarFile := rfl
  have top : dollarClass ∈ topDeclarations dollarFile.tree := .head _
  obtain ⟨agrees, spelled⟩ := declared_and_referenced_spellings dollarProgram_eq here
    lowered top (mem_singleton_self ("$A", DeclarationKind.classType)) (by decide)
  refine ⟨output, lowered, agrees, ?_⟩
  rw [ne_eq, spelled]
  decide

/-- The declaration of a class and a value in the same file are written differently, and other
files refer to a member that is not declared. -/
theorem class_is_declared_as_it_stands :
    (lowerFile dollarProgram .empty "  " 0 dollarFile).result.toOption.map (·.text) =
        some ("package app;\n\nclass $A \x7b\n  public function new() \x7b\x7d\n\x7d\n\n" ++
          "private var x = new _A();\n") ∧
      Exports.resolveLocal dollarProgram 0 "$A" = some (.member 0 "_A" .classType) ∧
      sanitize "$A" = "_A" := by
  refine ⟨?_, ?_, ?_⟩
  all_goals decide +kernel

end Haxify.Lower
