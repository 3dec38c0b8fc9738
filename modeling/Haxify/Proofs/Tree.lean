import Haxify.TypeScript.Tree

/-!
# Facts about node trees

Induction over trees, what annotating a tree keeps, and properties of all nodes of a tree.
`Tree.Throughout` passes from a tree to whatever a rule can look at in it, and
`throughout_annotate` brings a property of one rule to every node of an annotated tree.
-/

namespace Haxify.TypeScript.Tree

open List

variable {α β : Type} {trees : List (Tree α)} {nested : String}

@[elab_as_elim]
theorem tree_induction {motive : Tree α → Prop}
    (node : ∀ token value children, (∀ child ∈ children, motive child) →
      motive (.node token value children)) : ∀ tree, motive tree
  | .node token value children =>
    node token value children fun child _ => tree_induction node child
termination_by tree => sizeOf tree
decreasing_by
  have smaller := sizeOf_lt_of_mem ‹child ∈ children›
  simp_wf
  omega

section Annotated

variable (value : Token → List (Tree β) → β)
include value

theorem annotateAll_eq_map (trees : List (Tree α)) :
    annotateAll value trees = trees.map (annotate value) := by
  induction trees with
  | nil => rfl
  | cons tree rest rest_eq => rw [annotateAll, rest_eq, map_cons]

theorem annotate_node (token : Token) (old : α) (children : List (Tree α)) :
    annotate value (.node token old children) =
      .node token (value token (children.map (annotate value)))
        (children.map (annotate value)) := by
  rw [annotate, annotateAll_eq_map]

variable (tree : Tree α)
include tree

@[simp] theorem token_annotate : (annotate value tree).token = tree.token := by
  cases tree with
  | node token old children => rw [annotate_node, Tree.token, Tree.token]

@[simp] theorem children_annotate :
    (annotate value tree).children = tree.children.map (annotate value) := by
  cases tree with
  | node token old children => rw [annotate_node, Tree.children, Tree.children]

theorem value_annotate :
    (annotate value tree).value = value tree.token (annotate value tree).children := by
  cases tree with
  | node token old children => rw [annotate_node, Tree.value, Tree.token, Tree.children]

@[simp] theorem kind_annotate : (annotate value tree).kind = tree.kind := by
  rw [kind, kind, token_annotate]

@[simp] theorem text_annotate : (annotate value tree).text = tree.text := by
  rw [text, text, token_annotate]

@[simp] theorem isNamed_annotate : (annotate value tree).isNamed = tree.isNamed := by
  rw [isNamed, isNamed, token_annotate]

@[simp] theorem parts_annotate : (annotate value tree).parts = tree.parts.map (annotate value) := by
  simp [parts, filter_map, Function.comp_def]

@[simp] theorem named_annotate : (annotate value tree).named = tree.named.map (annotate value) := by
  simp [named, parts, filter_map, Function.comp_def]

@[simp] theorem first?_annotate :
    (annotate value tree).first? = tree.first?.map (annotate value) := by
  simp [first?]

@[simp] theorem field?_annotate (field : String) :
    (annotate value tree).field? field = (tree.field? field).map (annotate value) := by
  simp only [field?, children_annotate, find?_map, Function.comp_def, token_annotate]

@[simp] theorem fields_annotate (field : String) :
    (annotate value tree).fields field = (tree.fields field).map (annotate value) := by
  simp [fields, filter_map, Function.comp_def]

@[simp] theorem namedOf?_annotate (kind : String) :
    (annotate value tree).namedOf? kind = (tree.namedOf? kind).map (annotate value) := by
  simp only [namedOf?, named_annotate, find?_map, Function.comp_def, kind_annotate]

@[simp] theorem has_annotate (kind : String) : (annotate value tree).has kind = tree.has kind := by
  simp [has, any_map, Function.comp_def]

end Annotated

variable {tree part : Tree α}

theorem mem_descendantsOf {node : Tree α} :
    node ∈ descendantsOf trees ↔ ∃ tree ∈ trees, node ∈ tree.descendants := by
  induction trees with
  | nil => simp [descendantsOf]
  | cons tree rest rest_iff => simp [descendantsOf, rest_iff]

theorem mem_descendants {node : Tree α} :
    node ∈ tree.descendants ↔ node = tree ∨ ∃ child ∈ tree.children, node ∈ child.descendants := by
  cases tree with
  | node token value children =>
    rw [descendants, mem_cons, mem_descendantsOf, Tree.children]

theorem mem_descendants_self : tree ∈ tree.descendants := mem_descendants.mpr (.inl rfl)

theorem mem_descendants_of_mem_children {child : Tree α} (member : child ∈ tree.children) :
    child ∈ tree.descendants :=
  mem_descendants.mpr (.inr ⟨child, member, mem_descendants_self⟩)

theorem mem_children_of_mem_parts (member : part ∈ tree.parts) :
    part ∈ tree.children := (mem_filter.mp member).1

theorem mem_children_of_mem_named (member : part ∈ tree.named) :
    part ∈ tree.children := mem_children_of_mem_parts ((mem_filter.mp member).1)

theorem mem_named_of_first? (found : tree.first? = some part) :
    part ∈ tree.named := mem_of_mem_head? found

theorem mem_children_of_field? {field : String} (found : tree.field? field = some part) :
    part ∈ tree.children :=
  mem_of_find?_eq_some found

theorem mem_named_of_mem_fields {field : String} (member : part ∈ tree.fields field) :
    part ∈ tree.named := (mem_filter.mp member).1

theorem mem_flatten_of_mem_flattenAll {leaf : Tree α} (member : leaf ∈ flattenAll nested trees) :
    ∃ tree ∈ trees, leaf ∈ tree.flatten nested := by
  induction trees with
  | nil => simp [flattenAll] at member
  | cons tree rest rest_mem =>
    rw [flattenAll, mem_append] at member
    rcases member with here | later
    · split at here
      · exact ⟨tree, .head _, here⟩
      · simp at here
    · obtain ⟨other, inside, below⟩ := rest_mem later
      exact ⟨other, .tail _ inside, below⟩

theorem mem_flattenAll_of_mem_flatten {leaf : Tree α}
    (inside : tree ∈ trees) (isNamed : tree.isNamed)
    (noComment : tree.kind ≠ "comment") (member : leaf ∈ tree.flatten nested) :
    leaf ∈ flattenAll nested trees := by
  induction trees with
  | nil => simp at inside
  | cons first rest rest_mem =>
    rw [flattenAll, mem_append]
    rcases mem_cons.mp inside with rfl | later
    · rw [if_pos (by simp [isNamed, noComment])]
      exact .inl member
    · exact .inr (rest_mem later)

theorem flattenAll_map {copy : Tree α → Tree β}
    (isNamed : ∀ tree, (copy tree).isNamed = tree.isNamed)
    (kind : ∀ tree, (copy tree).kind = tree.kind)
    (each : ∀ tree ∈ trees, (copy tree).flatten nested = (tree.flatten nested).map copy) :
    flattenAll nested (trees.map copy) = (flattenAll nested trees).map copy := by
  induction trees with
  | nil => rfl
  | cons tree rest rest_eq =>
    rw [map_cons, flattenAll, isNamed, kind, each tree (.head _),
      rest_eq fun other member => each other (.tail _ member), flattenAll, map_append]
    split <;> rfl

theorem flatten_eq (nested : String) (tree : Tree α) :
    tree.flatten nested =
      if tree.kind == nested then flattenAll nested tree.children else [tree] := by
  obtain ⟨token, value, children⟩ := tree
  rw [flatten]
  rfl

@[simp] theorem flatten_annotate (value : Token → List (Tree β) → β) (nested : String)
    (tree : Tree α) :
    (annotate value tree).flatten nested = (tree.flatten nested).map (annotate value) := by
  induction tree using tree_induction with
  | node token old children below =>
    rw [flatten_eq, kind_annotate, children_annotate, flatten_eq nested (.node token old children)]
    split
    · exact flattenAll_map (isNamed_annotate value) (kind_annotate value) below
    · rfl

theorem firstUnparenthesized?_eq (trees : List (Tree α)) :
    firstUnparenthesized? trees =
      ((trees.filter (·.kind != "comment")).filter (·.isNamed)).head?.map unparenthesized := by
  induction trees with
  | nil => rfl
  | cons tree rest rest_eq =>
    rw [firstUnparenthesized?, rest_eq, filter_filter, filter_filter, filter_cons]
    split <;> simp

theorem unparenthesized_eq (tree : Tree α) :
    tree.unparenthesized =
      if tree.kind == "parenthesized_expression" then (tree.first?.map unparenthesized).getD tree
      else tree := by
  obtain ⟨token, value, children⟩ := tree
  rw [unparenthesized, firstUnparenthesized?_eq]
  rfl

@[simp] theorem unparenthesized_annotate (value : Token → List (Tree β) → β) (tree : Tree α) :
    (annotate value tree).unparenthesized = annotate value tree.unparenthesized := by
  induction tree using tree_induction with
  | node token old children below =>
    rw [unparenthesized_eq, kind_annotate, first?_annotate,
      unparenthesized_eq (.node token old children)]
    split
    · cases found : (Tree.node token old children).first? with
      | none => rfl
      | some child => exact below child (mem_children_of_mem_named (mem_named_of_first? found))
    · rfl

/-- All nodes of a tree have a property. -/
def Throughout (holds : Tree α → Prop) (tree : Tree α) : Prop :=
  ∀ node ∈ tree.descendants, holds node

namespace Throughout

variable {holds : Tree α → Prop}
variable (every : tree.Throughout holds)
include every

theorem top : holds tree := every tree (mem_descendants.mpr (.inl rfl))

theorem child (member : part ∈ tree.children) : part.Throughout holds :=
  fun node below => every node (mem_descendants.mpr (.inr ⟨part, member, below⟩))

theorem field {field : String} (found : tree.field? field = some part) : part.Throughout holds :=
  every.child (mem_children_of_field? found)

theorem named (member : part ∈ tree.named) :
    part.Throughout holds := every.child (mem_children_of_mem_named member)

theorem first (found : tree.first? = some part) :
    part.Throughout holds := every.named (mem_named_of_first? found)

omit every in
theorem node {token : Token} {value : α} {children : List (Tree α)}
    (top : holds (.node token value children))
    (below : ∀ child ∈ children, child.Throughout holds) :
    (Tree.node token value children).Throughout holds := by
  intro node member
  rcases mem_descendants.mp member with rfl | ⟨child, inside, deeper⟩
  · exact top
  · exact below child inside node deeper

theorem flatten {nested : String} (member : part ∈ tree.flatten nested) :
    part.Throughout holds := by
  induction tree using tree_induction with
  | node token value children below =>
    rw [Tree.flatten] at member
    split at member
    · obtain ⟨child, inside, leaf⟩ := mem_flatten_of_mem_flattenAll member
      exact below child inside (every.child inside) leaf
    · rw [mem_singleton] at member
      rw [member]
      exact every

theorem unparenthesized : tree.unparenthesized.Throughout holds := by
  induction tree using tree_induction with
  | node token value children below =>
    rw [unparenthesized_eq]
    split
    · cases found : (Tree.node token value children).first? with
      | none => exact every
      | some child =>
        have inside := mem_children_of_mem_named (mem_named_of_first? found)
        exact below child inside (every.child inside)
    · exact every

end Throughout

/-- A property that passes from a node and its annotated children to the node with the value
computed from them passes from a tree to the annotated tree. -/
theorem throughout_annotate {held : Tree α → Prop} {holds : Tree β → Prop}
    {value : Token → List (Tree β) → β} {tree : Tree α}
    (step : ∀ token old children, held (.node token old children) →
      (∀ child ∈ children.map (annotate value), child.Throughout holds) →
        holds (annotate value (.node token old children)))
    (every : tree.Throughout held) : (annotate value tree).Throughout holds := by
  induction tree using tree_induction with
  | node token old children below =>
    have annotated : ∀ child ∈ children.map (annotate value), child.Throughout holds := by
      intro child member
      obtain ⟨source, inside, rfl⟩ := mem_map.mp member
      exact below source inside (every.child inside)
    have top := step token old children every.top annotated
    rw [annotate_node] at top ⊢
    exact Throughout.node top annotated

/-- The values at all nodes of a tree have a property. -/
abbrev Every (holds : α → Prop) (tree : Tree α) : Prop :=
  tree.Throughout fun node => holds node.value

end Haxify.TypeScript.Tree
