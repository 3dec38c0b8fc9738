import Haxify.Proofs.Refusal

/-!
# Decorators

A decorator runs code on what it stands in front of, and there is no Haxe form for that. Decorators
of a class may hang in many places: in the class, in its body in front of a method, in a field, in
a parameter. Main statement: a file with a decorator in any of the places that are looked at is
given up. Two places are not looked at. Where a class is exported, decorators in front of the
export hang in the export statement; and signatures of methods are passed over, with the
decorators of their parameters.
-/

namespace Haxify.Lower

open Lowering List
open TypeScript (Node Tree)

variable {holder : Part}
variable {α : Type} {context : Context}

def isConstructor (member : TypeScript.Tree α) : Bool :=
  (member.field? "name").any (·.text == "constructor")

/-- A parameter list of a method or of the constructor of a class. -/
structure ParameterList (member list : TypeScript.Tree α) : Prop where
  isMethod : member.kind = "method_definition"
  noSingle : member.field? "parameter" = none
  found : member.field? "parameters" = some list

/-- The nodes of a class member in which decorators are looked for. -/
inductive MemberHolds (member : TypeScript.Tree α) : TypeScript.Tree α → Prop where
  | field (isField : member.kind ∈ fieldKinds) : MemberHolds member member
  | method (isMethod : member.kind = "method_definition") (other : isConstructor member = false) :
      MemberHolds member member
  /-- The parameters of a method or of the constructor. -/
  | list {list : TypeScript.Tree α} (parameters : ParameterList member list) :
      MemberHolds member list
  | parameter {list parameter : TypeScript.Tree α} (parameters : ParameterList member list)
      (inside : parameter ∈ list.named) : MemberHolds member parameter

/-- The nodes of a class in which decorators are looked for. -/
inductive ClassHolds (declaration : TypeScript.Tree α) : TypeScript.Tree α → Prop where
  | itself : ClassHolds declaration declaration
  | body {body : TypeScript.Tree α} (found : declaration.field? "body" = some body) :
      ClassHolds declaration body
  | member {body member holder : TypeScript.Tree α} (found : declaration.field? "body" = some body)
      (inside : member ∈ body.named) (holds : MemberHolds member holder) :
      ClassHolds declaration holder

/-- A node without decorators. -/
def Undecorated (holder : TypeScript.Tree α) : Prop :=
  ∀ child ∈ holder.named, child.kind ≠ "decorator"

theorem undecorated_of_not_has {holder : TypeScript.Tree α} (none : ¬holder.has "decorator") :
    Undecorated holder := by
  intro child member isDecorator
  have inside := Tree.mem_children_of_mem_named member
  exact none (any_eq_true.mpr ⟨child, inside, by simp [isDecorator]⟩)

section Members

variable {node : Part}

theorem gives_parameter_undecorated (node : Part) :
    Gives context (fun _ => node.kind ≠ "decorator" ∧ Undecorated node) (parameter node) := by
  rw [parameter]
  refine gives_guard fun plain => ?_
  rw [Bool.or_eq_true, not_or, beq_iff_eq] at plain
  exact gives_of_forall fun _ => ⟨plain.1, undecorated_of_not_has plain.2⟩

def ParametersUndecorated (member : TypeScript.Tree α) : Prop :=
  ∀ list, ParameterList member list → Undecorated list ∧ ∀ part ∈ list.named, Undecorated part

theorem gives_parameters_undecorated (node : Part) :
    Gives context (fun _ => ParametersUndecorated node) (parameters node) := by
  rw [parameters]
  split
  · rename_i single found
    refine gives_of_forall fun _ list parameters => ?_
    cases found.symm.trans parameters.noSingle
  · split
    · rename_i missing
      refine gives_of_forall fun _ list parameters => ?_
      cases missing.symm.trans parameters.found
    · rename_i list found
      refine gives_bind (gives_each fun part _ => gives_parameter_undecorated part)
        fun _ plain => gives_pure fun other parameters => ?_
      cases found.symm.trans parameters.found
      exact ⟨fun part inside => (plain part inside).1, fun part inside => (plain part inside).2⟩

theorem gives_functionLike_undecorated (signature : String) (role : FunctionRole) (node : Part) :
    Gives context (fun _ => ParametersUndecorated node) (functionLike signature node role) := by
  refine gives_withScope (gives_withJump _ ?_)
  rw [functionInside]
  exact gives_bind (gives_parameters_undecorated node) fun _ plain => gives_of_forall fun _ => plain

theorem gives_classField_undecorated (node : Part) :
    Gives context (fun _ => Undecorated node) (classField node) := by
  rw [classField]
  exact gives_guard fun plain => gives_of_forall fun _ => undecorated_of_not_has plain

theorem gives_classMethod_undecorated (node : Part) :
    Gives context (fun _ => Undecorated node ∧ ParametersUndecorated node) (classMethod node) := by
  rw [classMethod]
  refine gives_guard fun _ => ?_
  refine gives_guard fun plain => ?_
  refine gives_next fun _ => gives_next fun name => gives_next fun view => ?_
  refine gives_bind (gives_functionLike_undecorated _ _ node) fun _ parameters => ?_
  exact gives_pure ⟨undecorated_of_not_has plain, parameters⟩

theorem gives_classFunction_undecorated (node : Part) :
    Gives context (fun _ => (isConstructor node = false → Undecorated node) ∧
      ParametersUndecorated node) (classFunction node) := by
  rw [classFunction]
  split
  · rename_i constructs
    rw [classConstructor]
    refine gives_bind (gives_functionLike_undecorated _ _ node) fun _ parameters => gives_pure ?_
    exact ⟨fun other => absurd constructs (by simpa [isConstructor] using other), parameters⟩
  · refine gives_bind (gives_classMethod_undecorated node) fun _ plain => gives_pure ?_
    exact ⟨fun _ => plain.1, plain.2⟩

theorem undecorated_of_method (isMethod : node.kind = "method_definition")
    (plain : isConstructor node = false → Undecorated node)
    (parameters : ParametersUndecorated node) (holds : MemberHolds node holder) :
    Undecorated holder := by
  cases holds with
  | field isField =>
    rw [isMethod] at isField
    exact absurd isField (by decide)
  | method _ other => exact plain other
  | list found => exact (parameters _ found).1
  | parameter found inside => exact (parameters _ found).2 _ inside

theorem undecorated_of_other (noMethod : node.kind ≠ "method_definition")
    (plain : node.kind ∈ fieldKinds → Undecorated node) (holds : MemberHolds node holder) :
    Undecorated holder := by
  cases holds with
  | field isField => exact plain isField
  | method isMethod => exact absurd isMethod noMethod
  | list found | parameter found => exact absurd found.isMethod noMethod

theorem gives_classMember_undecorated (node : Part) :
    Gives context (fun _ => node.kind ≠ "decorator" ∧
      ∀ holder, MemberHolds node holder → Undecorated holder) (classMember node) := by
  have field {kind : String} (isField : node.kind = kind) (other : kind ∉ ["decorator",
      "method_definition"]) : Gives context (fun _ => node.kind ≠ "decorator" ∧
        ∀ holder, MemberHolds node holder → Undecorated holder)
      (do return ClassMember.mk [← classField node] [] false) := by
    simp only [mem_cons, not_mem_nil, or_false, not_or] at other
    refine gives_bind (gives_classField_undecorated node) fun _ plain => gives_pure ?_
    exact ⟨isField ▸ other.1, fun _ => undecorated_of_other (isField ▸ other.2) fun _ => plain⟩
  have signature {kind : String} {given : ClassMember} (same : node.kind = kind)
      (other : kind ∉ "decorator" :: "method_definition" :: fieldKinds) :
      Gives context (fun _ => node.kind ≠ "decorator" ∧
        ∀ holder, MemberHolds node holder → Undecorated holder) (pure given) := by
    simp only [mem_cons, not_or] at other
    refine gives_pure ⟨same ▸ other.1, fun _ => undecorated_of_other (same ▸ other.2.1) ?_⟩
    exact fun isField => absurd (same ▸ isField) other.2.2
  rw [classMember]
  split
  iterate 2 exact field ‹_› (by decide)
  · rename_i isMethod
    refine fun state value after run => ⟨by rw [isMethod]; decide, fun holder holds => ?_⟩
    obtain ⟨plain, parameters⟩ := gives_classFunction_undecorated node state value after run
    exact undecorated_of_method isMethod plain parameters holds
  iterate 2 exact signature ‹_› (by decide)
  all_goals exact gives_refusal

theorem gives_classDeclaration_undecorated (node : Part) (isPublic : Bool) :
    Gives context (fun _ => ∀ holder, ClassHolds node holder → Undecorated holder)
      (classDeclaration node isPublic) := by
  rw [classDeclaration]
  refine gives_guard fun plain => ?_
  split
  · exact gives_refusal
  refine gives_next fun view => gives_next fun bases => ?_
  dsimp only
  split
  · exact gives_refusal
  rename_i body found
  refine gives_bind (gives_each fun member _ => gives_classMember_undecorated member)
    fun _ members => gives_of_forall fun _ holder holds => ?_
  cases holds with
  | itself => exact undecorated_of_not_has plain
  | body again =>
    cases found.symm.trans again
    exact fun member inside => (members member inside).1
  | member again inside held =>
    cases found.symm.trans again
    exact (members _ inside).2 _ held

end Members

section Items

variable {node : Part}

/-- A statement is a class, or exports one. -/
inductive IsTopClass (statement : TypeScript.Tree α) : TypeScript.Tree α → Prop where
  | plain (isClass : statement.kind = "class_declaration") : IsTopClass statement statement
  | exported {declaration : TypeScript.Tree α} (isExport : statement.kind = "export_statement")
      (found : statement.field? "declaration" = some declaration)
      (isClass : declaration.kind = "class_declaration") : IsTopClass statement declaration

theorem gives_topDeclaration_undecorated (isExported : Bool)
    (isClass : node.kind = "class_declaration") :
    Gives context (fun _ => ∀ holder, ClassHolds node holder → Undecorated holder)
      (topDeclaration node isExported) := by
  rw [topDeclaration]
  refine gives_next fun _ => ?_
  simp only [isClass]
  exact gives_bind (gives_classDeclaration_undecorated node _) fun _ plain => gives_pure plain

theorem gives_topLevel_undecorated {declaration : Part} (top : IsTopClass node declaration) :
    Gives context (fun _ => ∀ holder, ClassHolds declaration holder → Undecorated holder)
      (topLevel node) := by
  cases top with
  | plain isClass =>
    simp only [topLevel, isClass]
    exact gives_topDeclaration_undecorated false isClass
  | exported isExport found isClass =>
    simp only [topLevel, isExport, exportStatement]
    refine gives_guard fun _ => ?_
    refine gives_guard fun _ => ?_
    simp only [found]
    rw [exportedDeclaration, if_neg (by simp [isClass])]
    exact gives_topDeclaration_undecorated true isClass

end Items

section Files

variable {member list holder declaration statement : Node}

theorem ParameterList.rendered (parameters : ParameterList member list) :
    ParameterList (rendered member) (rendered list) := by
  refine ⟨(kind_rendered member).trans parameters.isMethod, ?_, rendered_of_field? parameters.found⟩
  rw [field?_rendered, parameters.noSingle]
  rfl

theorem MemberHolds.rendered (holds : MemberHolds member holder) :
    MemberHolds (rendered member) (rendered holder) := by
  cases holds with
  | field isField => exact .field (by rw [kind_rendered]; exact isField)
  | method isMethod other =>
    refine .method ((kind_rendered member).trans isMethod) ?_
    rw [isConstructor, field?_rendered, Option.any_map]
    simpa [isConstructor, Function.comp_def] using other
  | list parameters => exact .list parameters.rendered
  | parameter parameters inside => exact .parameter parameters.rendered (mem_named_rendered inside)

theorem ClassHolds.rendered (holds : ClassHolds declaration holder) :
    ClassHolds (rendered declaration) (rendered holder) := by
  cases holds with
  | itself => exact .itself
  | body found => exact .body (rendered_of_field? found)
  | member found inside held =>
    exact .member (rendered_of_field? found) (mem_named_rendered inside) held.rendered

theorem IsTopClass.rendered (top : IsTopClass statement declaration) :
    IsTopClass (rendered statement) (rendered declaration) := by
  cases top with
  | plain isClass => exact .plain ((kind_rendered _).trans isClass)
  | exported isExport found isClass =>
    exact .exported ((kind_rendered statement).trans isExport) (rendered_of_field? found)
      ((kind_rendered declaration).trans isClass)

theorem gives_fileItems_undecorated (inside : statement ∈ context.file.statements)
    (top : IsTopClass statement declaration) (holds : ClassHolds declaration holder) :
    Gives context (fun _ => Undecorated holder) fileItems := by
  intro state items after run
  obtain ⟨_, between, read, rest⟩ := bind_eq_ok.mp run
  cases read
  obtain ⟨declared, middle, each, _⟩ := bind_eq_ok.mp rest
  have classes : Gives context (fun _ => ∀ part ∈ (rendered context.file.tree).named,
      ∀ node, IsTopClass part node → ∀ holder, ClassHolds node holder → Undecorated holder)
      (forEach (rendered context.file.tree).named topLevel) := by
    refine gives_each fun part _ state value after run node top => ?_
    exact gives_topLevel_undecorated top state value after run
  have plain := classes _ _ _ each _ (mem_named_rendered inside) _ top.rendered _ holds.rendered
  intro child attached isDecorator
  exact plain _ (mem_named_rendered attached) ((kind_rendered child).trans isDecorator)

end Files

namespace Sample

def mark : Node := node "decorator" "decorator" "@d" [identifier "" "d"]

def markedList (marks : List Node) : Node :=
  node "formal_parameters" "parameters" ""
    [node "required_parameter" "" "" (marks ++ [identifier "pattern" "x"])]

def signatureTaking (name : String) (marks : List Node) : Node :=
  node "method_signature" "" "" [node "property_identifier" "name" name [], markedList marks]

def methodTaking (name : String) (marks : List Node) : Node :=
  node "method_definition" "" "" [node "property_identifier" "name" name [], markedList marks,
    node "statement_block" "body" "" []]

def markedConstructor : Node := classOf "" [methodTaking "constructor" [mark]]

def markedExport : Node :=
  node "export_statement" "" "" [mark, classOf "declaration" []]

def markedSignature : Node :=
  classOf "" [signatureTaking "m" [mark], methodTaking "m" []]

end Sample

open Sample

/-- A file is given up if a class at its top has a decorator where decorators are looked for: in
the class, in its body, in a field, in a method, or in a parameter of a method or of the
constructor. -/
theorem decorated_class_is_refused {program : Program} {registry : Foreign.Registry}
    {indent : String} {index : Nat} {file : SourceFile}
    {statement declaration holder decorator : Node} (inside : statement ∈ file.statements)
    (top : IsTopClass statement declaration) (holds : ClassHolds declaration holder)
    (attached : decorator ∈ holder.named) (isDecorator : decorator.kind = "decorator") :
    ∃ reason, (lowerFile program registry indent index file).result = .error reason := by
  cases made : (lowerFile program registry indent index file).result with
  | error reason => exact ⟨reason, rfl⟩
  | ok output =>
    obtain ⟨imports, items, state, _, run, _⟩ := lowerFile_eq_ok made
    exact absurd isDecorator (gives_fileItems_undecorated inside top holds _ _ _ run _ attached)

/-- A file with a decorator of a parameter of a constructor is given up. -/
theorem marked_constructor_is_refused :
    ClassHolds markedConstructor (node "required_parameter" "" ""
        [mark, identifier "pattern" "x"]) ∧
      ∃ reason, (alone markedConstructor).result = .error reason := by
  have parameters : ParameterList (methodTaking "constructor" [mark])
      (markedList [mark]) := ⟨rfl, rfl, rfl⟩
  have holds : ClassHolds markedConstructor (node "required_parameter" "" ""
      [mark, identifier "pattern" "x"]) :=
    .member rfl (.head _) (.parameter parameters (.head _))
  have attached : mark ∈ (node "required_parameter" "" ""
      [mark, identifier "pattern" "x"]).named := .head _
  have inside : markedConstructor ∈ (fileOf markedConstructor).statements := mem_cons_self
  exact ⟨holds, decorated_class_is_refused inside (.plain rfl) holds attached rfl⟩

/-- A decorator in front of the export of a class is dropped, and so is one of a parameter of a
signature. -/
theorem dropped_decorators :
    (mark ∈ markedExport.named ∧
        IsTopClass markedExport (classOf "declaration" []) ∧
        (alone markedExport).result = .ok ⟨⟨"", "A"⟩,
          "package;\n\nclass C \x7b\n  public function new() \x7b\x7d\n\x7d\n"⟩) ∧
      (markedSignature.descendants.any (·.kind == "decorator")) ∧
        IsTopClass markedSignature markedSignature ∧
        (alone markedSignature).result = .ok ⟨⟨"", "A"⟩,
          "package;\n\nprivate class C \x7b\n  public function new() \x7b\x7d\n\n" ++
            "  public function m(x) \x7b\x7d\n\x7d\n"⟩ := by
  refine ⟨⟨.head _, .exported rfl rfl rfl, ?_⟩, ?_, .plain rfl, ?_⟩
  all_goals decide +kernel

end Haxify.Lower
