import Haxify.Text.Bytes

/-!
# Node trees

A syntax tree comes from a TypeScript grammar: every node has a kind, the text it
covers and, where the grammar names it, the field it fills in its parent. Nodes
carry a value of any type, and `annotate` gives each node a value computed from
its token and its annotated children, so that a meaning of every node can be
defined from the meanings below it.
-/

namespace Haxify.TypeScript

/-- What is known of one node besides its children. -/
structure Token where
  kind : String
  isNamed : Bool
  /-- Whether the node or a part of it did not fit the grammar, or is missing. -/
  isFaulty : Bool
  /-- Field the node fills in its parent, empty for none. -/
  field : String
  start : Nat
  /-- Byte offset of the end. -/
  stop : Nat
  position : Text.Position
  /-- The text between start and end. -/
  text : String
deriving DecidableEq, Repr

/-- A syntax tree with a value at every node. -/
inductive Tree (α : Type) where
  /-- A node with its children in document order, comments and tokens included. -/
  | node (token : Token) (value : α) (children : List (Tree α))

/-- A syntax tree as the grammar gives it. -/
abbrev Node := Tree Unit

namespace Tree

variable {α β : Type}

def token : Tree α → Token
  | .node token _ _ => token

/-- The value at the top. -/
def value : Tree α → α
  | .node _ value _ => value

/-- The trees below the top, comments and tokens included. -/
def children : Tree α → List (Tree α)
  | .node _ _ children => children

/-- Kind of the node at the top. -/
def kind (tree : Tree α) : String := tree.token.kind

def text (tree : Tree α) : String := tree.token.text

/-- Whether the grammar names the node at the top. -/
def isNamed (tree : Tree α) : Bool := tree.token.isNamed

/-- The children that are no comments. -/
def parts (tree : Tree α) : List (Tree α) :=
  tree.children.filter (·.kind != "comment")

/-- The named children that are no comments. -/
def named (tree : Tree α) : List (Tree α) :=
  tree.parts.filter (·.isNamed)

def first? (tree : Tree α) : Option (Tree α) := tree.named.head?

/-- The first child that fills a field. -/
def field? (tree : Tree α) (field : String) : Option (Tree α) :=
  tree.children.find? (·.token.field == field)

/-- The named children that fill a field, comments excluded. -/
def fields (tree : Tree α) (field : String) : List (Tree α) :=
  tree.named.filter (·.token.field == field)

/-- Whether some child has a kind. -/
def has (tree : Tree α) (kind : String) : Bool :=
  tree.children.any (·.kind == kind)

def namedOf? (tree : Tree α) (kind : String) : Option (Tree α) :=
  tree.named.find? (·.kind == kind)

mutual

def descendants : Tree α → List (Tree α)
  | .node token value children => .node token value children :: descendantsOf children

/-- All nodes of several trees in document order. -/
def descendantsOf : List (Tree α) → List (Tree α)
  | [] => []
  | tree :: rest => descendants tree ++ descendantsOf rest

end

mutual

def annotate (value : Token → List (Tree β) → β) : Tree α → Tree β
  | .node token _ children =>
    let below := annotateAll value children
    .node token (value token below) below

def annotateAll (value : Token → List (Tree β) → β) : List (Tree α) → List (Tree β)
  | [] => []
  | tree :: rest => annotate value tree :: annotateAll value rest

end

mutual

/-- The leaves below nested nodes of one kind, in document order: named children of
that kind are replaced by their own leaves. -/
def flatten (nested : String) : Tree α → List (Tree α)
  | .node token value children =>
    if token.kind == nested then flattenAll nested children
    else [.node token value children]

def flattenAll (nested : String) : List (Tree α) → List (Tree α)
  | [] => []
  | tree :: rest =>
    (if tree.isNamed && tree.kind != "comment" then flatten nested tree else [])
      ++ flattenAll nested rest

end

mutual

/-- The tree without the parentheses around it. Parentheses around nothing stay. -/
def unparenthesized : Tree α → Tree α
  | .node token value children =>
    if token.kind == "parenthesized_expression" then
      (firstUnparenthesized? children).getD (.node token value children)
    else .node token value children

def firstUnparenthesized? : List (Tree α) → Option (Tree α)
  | [] => none
  | tree :: rest =>
    if tree.isNamed && tree.kind != "comment" then some (unparenthesized tree)
    else firstUnparenthesized? rest

end

/-- The first node, in document order, that did not fit the grammar. -/
def firstFault? (tree : Tree α) : Option Token :=
  (tree.descendants.map token).find? (·.isFaulty)

end Tree

/-- One line of a tree listed in document order, as a parser hands it over. -/
structure Entry where
  kind : String
  isNamed : Bool
  /-- Whether the node is an error or is missing. -/
  isFaulty : Bool
  /-- Field the node fills, empty for none. -/
  field : String
  start : Nat
  /-- Byte offset of the end. -/
  stop : Nat
  /-- Number of direct children, which follow with all that is below them. -/
  children : Nat
deriving DecidableEq, Repr

def Entry.token (source : List Char) (entry : Entry) : Token :=
  { kind := entry.kind
    isNamed := entry.isNamed
    isFaulty := entry.isFaulty
    field := entry.field
    start := entry.start
    stop := entry.stop
    position := Text.position source entry.start
    text := Text.slice source entry.start entry.stop }

/-- Puts a node on a stack of trees, over as many of them as it has children. -/
def stackEntry (source : List Char) (entry : Entry) (stack : List Node) : List Node :=
  .node (entry.token source) () (stack.take entry.children) :: stack.drop entry.children

/-- The tree listed in document order, if the listing is one whole tree. -/
def Node.ofEntries? (source : String) (entries : List Entry) : Option Node :=
  match entries.foldr (stackEntry source.toList) [] with
  | [tree] => some tree
  | _ => none

end Haxify.TypeScript
