import Haxify.Proofs.Mirrors

/-!
# Trees and their copies

A tree is mirrored if, whatever place it stands in, its copy has renderings that mirror those of the
tree. The rules look at one node and the renderings of its parts, so what they need to know is what
becomes of the parts: which of them have copies that mirror them, and which stay as they are.
-/

namespace Haxify.Lower

open Lowering List
open TypeScript (Node Token Tree)
open TypeScript.Scope
open TypeScript.Tree (mem_children_of_field? mem_children_of_mem_named mem_named_of_first?)

variable {sort : String} {motive : Option Node → Option Part → Option Part → Prop}
variable {inner : Place} {inside : Bool} {nodes : List Node}

section Rendered

/-- A part that has the token of a tree and its rendered children. -/
structure Shows (tree : Node) (part : Part) : Prop where
  token : part.token = tree.token
  children : part.children = tree.children.map rendered

theorem shows_rendered (tree : Node) : Shows tree (rendered tree) :=
  ⟨token_rendered tree, children_rendered tree⟩

theorem shows_partOf (tree : Node) : Shows tree (partOf tree.token (tree.children.map rendered)) :=
  ⟨rfl, rfl⟩

namespace Shows

variable {tree : Node} {part : Part}
variable (shown : Shows tree part)
include shown

theorem kind : part.kind = tree.kind := congrArg Token.kind shown.token

theorem text : part.text = tree.text := congrArg Token.text shown.token

theorem field? (field : String) : part.field? field = (tree.field? field).map rendered := by
  simp only [Tree.field?, shown.children, find?_map, Function.comp_def, token_rendered]

theorem parts : part.parts = tree.parts.map rendered := by
  simp [Tree.parts, shown.children, filter_map, Function.comp_def]

theorem named : part.named = tree.named.map rendered := by
  simp [Tree.named, shown.parts, filter_map, Function.comp_def, Tree.isNamed]

theorem first? : part.first? = tree.first?.map rendered := by
  rw [Tree.first?, shown.named, Tree.first?, head?_map]

theorem fields (field : String) : part.fields field = (tree.fields field).map rendered := by
  simp [Tree.fields, shown.named, filter_map, Function.comp_def]

theorem has (kind : String) : part.has kind = tree.has kind := by
  simp [Tree.has, shown.children, any_map, Function.comp_def]

theorem namedOf? (kind : String) : part.namedOf? kind = (tree.namedOf? kind).map rendered := by
  simp only [Tree.namedOf?, shown.named, find?_map, Function.comp_def, kind_rendered]

end Shows

end Rendered

/-- Where a pattern stands whose names are bound in a mode. -/
def BindingMode.place : BindingMode → Place
  | .assignment => .assigned
  | _ => .declared

section Twins

variable {swap : Swap} {bound : Bool} {place : Place} {tree : Node}
  {part copy : Part}

/-- A tree without the new name whose copies mirror it in whatever place it stands. -/
structure Mirrored (swap : Swap) (tree : Node) : Prop where
  spares : swap.Spares tree
  expression : ∀ bound, Echoes swap bound (rendered tree).value.expression
    (rendered (enter swap.old swap.new .code bound tree)).value.expression
  /-- As a statement, which may declare the old name. -/
  statement : ∀ bound, Mirrors swap bound (bound || introduces swap.old tree) Eq
    (rendered tree).value.statement
    (rendered (enter swap.old swap.new .code bound tree)).value.statement
  /-- As what follows the first branch of a conditional. -/
  alternative : ∀ bound, Echoes swap bound (rendered tree).value.alternative
    (rendered (enter swap.old swap.new .code bound tree)).value.alternative
  /-- As a pattern, which may declare the old name. -/
  unpack : ∀ mode bound temp,
    Mirrors swap bound (bound || mode.place.binds swap.old tree) Eq
      ((rendered tree).value.unpack mode temp)
      ((rendered (enter swap.old swap.new mode.place bound tree)).value.unpack mode temp)

theorem Mirrored.unused (mirrored : Mirrored swap tree) : tree.text ≠ swap.new :=
  mirrored.spares.unused

abbrev Reflected (swap : Swap) (tree : Node) : Prop :=
  tree.Throughout (Mirrored swap)

/-- A node and its copy, as the rules see them: the children are rendered. -/
structure Twins (swap : Swap) (place : Place) (bound : Bool) (tree : Node)
    (part copy : Part) : Prop where
  source : Shows tree part
  copied : Shows (inOrder.resolve swap.old swap.new place bound tree) copy
  spares : swap.Spares tree
  parts : ∀ child ∈ tree.children, Reflected swap child

theorem Twins.undeclared
    (twins : Twins swap .code (bound || declaresItself swap.old tree) tree part copy)
    (same : part.kind = sort) (other : sort ≠ "function_declaration") :
    Twins swap .code bound tree part copy := by
  have quiet : declaresItself swap.old tree = false := by
    rw [← same, twins.source.kind] at other
    simp [declaresItself, other]
  rw [quiet, Bool.or_false] at twins
  exact twins

structure Copied (swap : Swap) (place : Place) (bound : Bool) (tree : Node)
    (part copy : Part) : Prop where
  reflected : Reflected swap tree
  part_eq : part = rendered tree
  copy_eq : copy = rendered (enter swap.old swap.new place bound tree)

namespace Copied

variable (copied : Copied swap place bound tree part copy)
include copied

theorem kind : copy.kind = part.kind := by
  rw [copied.copy_eq, copied.part_eq, kind_rendered, kind_rendered, kind_enter]

theorem kind_part : part.kind = tree.kind := by
  rw [copied.part_eq, kind_rendered]

theorem text_part : part.text = tree.text := by
  rw [copied.part_eq, text_rendered]

theorem unused : part.text ≠ swap.new := by
  rw [copied.text_part]
  exact copied.reflected.top.spares.unused

theorem isNamed : copy.isNamed = part.isNamed := by
  rw [copied.copy_eq, copied.part_eq, Tree.isNamed, token_rendered, Tree.isNamed, token_rendered]
  exact isNamed_enter tree

theorem twins :
    Twins swap (settled place tree) (bound || enters swap.old place tree) tree part copy := by
  refine ⟨?_, ?_, copied.reflected.top.spares, fun _ => copied.reflected.child⟩
  · rw [copied.part_eq]
    exact shows_rendered tree
  · rw [copied.copy_eq]
    exact shows_rendered _

end Copied

namespace Copied

variable (copied : Copied swap .code bound tree part copy)
include copied

theorem code (same : part.kind = sort) (other : sort ≠ "function_declaration") :
    Twins swap .code bound tree part copy := by
  have twins := copied.twins
  rw [enters_code] at twins
  exact Twins.undeclared twins same other

theorem expression : Echoes swap bound part.value.expression copy.value.expression := by
  rw [copied.part_eq, copied.copy_eq]
  exact copied.reflected.top.expression bound

theorem statement :
    Rebinds swap bound (introduces swap.old tree) part.value.statement copy.value.statement := by
  rw [copied.part_eq, copied.copy_eq]
  exact copied.reflected.top.statement bound

theorem alternative : Echoes swap bound part.value.alternative copy.value.alternative := by
  rw [copied.part_eq, copied.copy_eq]
  exact copied.reflected.top.alternative bound

omit copied

theorem unpack {mode : BindingMode} (temp : String)
    (copied : Copied swap mode.place bound tree part copy) :
    Rebinds swap bound (mode.place.binds swap.old tree)
      (part.value.unpack mode temp) (copy.value.unpack mode temp) := by
  rw [copied.part_eq, copied.copy_eq]
  exact copied.reflected.top.unpack mode bound temp

end Copied

/-- What fills a field of a tree becomes its copy at a place. -/
def Swap.Becomes (swap : Swap) (place : Place) (bound : Bool) (tree : Node) (field : String)
    (inner : Place) (inside : Bool) : Prop :=
  (inOrder.resolve swap.old swap.new place bound tree).field? field =
    (tree.field? field).map (enter swap.old swap.new inner inside)

theorem Swap.Becomes.flagged {field : String} {other : Bool}
    (becomes : swap.Becomes place bound tree field inner inside) (flag : inside = other) :
    swap.Becomes place bound tree field inner other := flag ▸ becomes

namespace Twins

variable (twins : Twins swap place bound tree part copy)
include twins

theorem kind : copy.kind = part.kind := by
  rw [twins.copied.kind, twins.source.kind, kind_resolve]

theorem unused : part.text ≠ swap.new := by
  rw [twins.source.text]
  exact twins.spares.unused

theorem throughout : tree.Throughout swap.Spares := by
  obtain ⟨token, value, children⟩ := tree
  exact .node twins.spares fun child member node below =>
    (twins.parts child member node below).spares

theorem token {kind : String} (same : part.kind = kind) (other : kind ∉ namingKinds) :
    copy.token = part.token := by
  rw [twins.copied.token, twins.source.token,
    token_resolve_of_not_mem (by rw [← twins.source.kind, same]; exact other)]

theorem sameText {kind : String} (same : part.kind = kind) (other : kind ∉ namingKinds) :
    copy.text = part.text := congrArg Token.text (twins.token same other)

theorem has (same : part.kind = sort) (kind : String)
    (other : sort ∉ ["object", "object_pattern"]) :
    copy.has kind = part.has kind := by
  rw [twins.source.kind] at same
  rw [twins.copied.has, twins.source.has,
    has_resolve (expansion?_eq_none (by rw [same]; exact other))]

section Fields

variable {field : String} {child : Part}

/-- Nothing fills a field of both, or what fills it has a copy that fills it. -/
@[elab_as_elim]
theorem each
    (becomes : swap.Becomes place bound tree field inner inside) (none : motive none none none)
    (some : ∀ {node child twin}, tree.field? field = some node →
      Copied swap inner inside node child twin → motive (some node) (some child) (some twin)) :
    motive (tree.field? field) (part.field? field) (copy.field? field) := by
  unfold Swap.Becomes at becomes
  rw [twins.source.field?, twins.copied.field?, becomes]
  cases found : tree.field? field with
  | none => exact none
  | some node => exact some found ⟨twins.parts node (mem_children_of_field? found), rfl, rfl⟩

/-- What fills a field and has no values in it stays. -/
theorem kept (becomes : swap.Becomes place bound tree field .inert inside) :
    copy.field? field = part.field? field := by
  refine twins.each becomes rfl fun _ copied => ?_
  rw [copied.copy_eq, enter_inert, copied.part_eq]

end Fields

section Lists

variable {child : Part}

omit twins in
theorem paired (reflected : ∀ node ∈ nodes, Reflected swap node) :
    Forall₂ (fun part copy => ∃ tree, Copied swap inner inside tree part copy)
      (nodes.map rendered)
      ((nodes.map (enter swap.old swap.new inner inside)).map rendered) := by
  induction nodes with
  | nil => exact .nil
  | cons node rest rest_paired =>
    refine .cons ⟨node, reflected node (.head _), rfl, rfl⟩ ?_
    exact rest_paired fun other member => reflected other (.tail _ member)

variable (becomes : (inOrder.resolve swap.old swap.new place bound tree).children =
  tree.children.map (enter swap.old swap.new inner inside))
include becomes

@[elab_as_elim]
theorem eachFirst
    (none : motive none none none)
    (some : ∀ {node child twin}, tree.first? = some node →
      Copied swap inner inside node child twin → motive (some node) (some child) (some twin)) :
    motive tree.first? part.first? copy.first? := by
  rw [twins.source.first?, twins.copied.first?, Tree.first?, Tree.first?,
    named_of_children becomes, head?_map, ← Tree.first?]
  cases found : tree.first? with
  | none => exact none
  | some node =>
    have member := mem_children_of_mem_named (mem_named_of_first? found)
    exact some found ⟨twins.parts node member, rfl, rfl⟩

theorem named :
    Forall₂ (fun part copy => ∃ tree, Copied swap inner inside tree part copy)
      part.named copy.named := by
  rw [twins.source.named, twins.copied.named, named_of_children becomes]
  exact paired fun node member =>
    twins.parts node (mem_children_of_mem_named member)

theorem pairedParts :
    Forall₂ (fun part copy => ∃ tree, Copied swap inner inside tree part copy)
      part.parts copy.parts := by
  rw [twins.source.parts, twins.copied.parts, parts_of_children becomes]
  exact paired fun node member =>
    twins.parts node (Tree.mem_children_of_mem_parts member)

end Lists

end Twins

namespace Twins

variable (twins : Twins swap .code bound tree part copy)
include twins

theorem text (isName : part.kind = "identifier" ∨ part.kind = "shorthand_property_identifier") :
    copy.text = swap.name bound part.text := by
  have value : isValue .code tree.token.kind = true := by
    have kind : tree.token.kind = part.kind := twins.source.kind.symm
    rw [kind]
    rcases isName with same | same <;> rw [same] <;> rfl
  rw [twins.copied.text, twins.source.text, Tree.text, token_resolve]
  simp only [renamed, Rename.name, value, Bool.true_and]
  rfl

variable {sort slot : String} (same : part.kind = sort)
include same

theorem becomes (listed : sort ∈ codeFields.map Prod.fst) (there : fieldPlace sort slot = inner) :
    swap.Becomes .code bound tree slot inner (bound || opens swap.old .code tree slot) := by
  rw [twins.source.kind] at same
  rw [Swap.Becomes, field?_code (by rw [same]; exact listed), same, there]

/-- The fields of code of a kind that binds no names for its parts. -/
def CodeField (sort slot : String) (inner : Place) : Prop :=
  sort ∈ codeFields.map Prod.fst ∧ sort ∉ openingKinds ∧ fieldPlace sort slot = inner

instance : Decidable (CodeField sort slot inner) := inferInstanceAs (Decidable (_ ∧ _ ∧ _))

theorem plain (row : CodeField sort slot inner) :
    swap.Becomes .code bound tree slot inner bound := by
  obtain ⟨listed, closed, there⟩ := row
  refine (twins.becomes same listed there).flagged ?_
  rw [opens_code_of_not_mem (by rw [← twins.source.kind, same]; exact closed), Bool.or_false]

@[elab_as_elim]
theorem eachCode (slot : String) {motive : Option Part → Option Part → Prop}
    (row : CodeField sort slot .code) (none : motive none none)
    (some : ∀ {node child twin}, Copied swap .code bound node child twin →
      motive (some child) (some twin)) : motive (part.field? slot) (copy.field? slot) :=
  twins.each (twins.plain same row) none fun _ copied => some copied

theorem inert (slot : String)
    (row : sort ∈ codeFields.map Prod.fst ∧ fieldPlace sort slot = .inert) :
    copy.field? slot = part.field? slot := twins.kept (twins.becomes same row.1 row.2)

theorem children
    (row : sort ∈ listKinds ∧ sort ∉ ["object", "statement_block", "lexical_declaration",
      "variable_declaration"]) :
    (inOrder.resolve swap.old swap.new .code bound tree).children =
      tree.children.map (enter swap.old swap.new .code bound) := by
  rw [twins.source.kind] at same
  exact children_code (by rw [same]; exact row.1) (by rw [same]; exact row.2)

end Twins

end Twins

section Chains

variable {swap : Swap} {bound : Bool} {γ δ : Type}

theorem chained_thread {binds : Node → Bool} {twin : Bool → Node → Node} {alike : γ → δ → Prop}
    {body : Part → Lowering γ} {copy : Part → Lowering δ}
    (each : ∀ inside, ∀ node ∈ nodes, Mirrors swap inside (inside || binds node) alike
      (body (rendered node)) (copy (rendered (twin inside node)))) :
    Chained swap alike body copy bound (nodes.map rendered)
      ((thread binds twin bound nodes).map rendered) (bound || nodes.any binds) := by
  induction nodes generalizing bound with
  | nil => simpa [thread] using .nil bound
  | cons node rest rest_chained =>
    rw [any_cons, ← Bool.or_assoc]
    exact .cons (each bound node (.head _))
      (rest_chained fun inside other member => each inside other (.tail _ member))

theorem chained_map {twin : Node → Node} {alike : γ → δ → Prop} {body : Part → Lowering γ}
    {copy : Part → Lowering δ}
    (each : ∀ node ∈ nodes, Mirrors swap bound bound alike (body (rendered node))
      (copy (rendered (twin node)))) :
    Chained swap alike body copy bound (nodes.map rendered)
      ((nodes.map twin).map rendered) bound := by
  induction nodes with
  | nil => exact .nil bound
  | cons node rest rest_chained =>
    exact .cons (each node (.head _)) (rest_chained fun other member => each other (.tail _ member))

end Chains

end Haxify.Lower
