import Haxify.Text.Pieces

/-!
# Paths

A path is a text whose components stand between slashes. Empty components and
inner dots mean nothing, so two texts may have the same components; paths are
ordered component by component, not character by character. Normalizing resolves
dots and parents by the text alone.
-/

namespace Haxify

/-- A file path as it was written. -/
structure Path where
  text : String
deriving DecidableEq, Repr, Inhabited

namespace Path

/-- One step of a path. -/
inductive Component where
  | root
  /-- A dot at the start of a relative path. -/
  | current
  /-- Two dots. -/
  | parent
  /-- A file or directory name. -/
  | name (text : String)
deriving DecidableEq, Repr

def Component.text : Component → String
  | .root => "/"
  | .current => "."
  | .parent => ".."
  | .name text => text

/-- Whether a path starts at the root directory. -/
def isAbsolute (path : Path) : Bool := Text.beginsWith path.text "/"

/-- Whether a piece of a path between slashes stands for nothing. -/
def isFiller (piece : String) : Bool := piece == "" || piece == "."

def ofPiece (piece : String) : Option Component :=
  if isFiller piece then none
  else if piece == ".." then some .parent
  else some (.name piece)

/-- The pieces of a path that decide where it starts: an empty one for the root,
a leading dot, or nothing. -/
def lead (pieces : List String) : List String :=
  match pieces with
  | "" :: _ :: _ => [""]
  | "." :: _ => ["."]
  | _ => []

/-- The component at the start of a path that has one. -/
def leadComponents (pieces : List String) : List Component :=
  match lead pieces with
  | [] => []
  | start :: _ => if start == "" then [.root] else [.current]

def components (path : Path) : List Component :=
  let pieces := Text.splitOn '/' path.text
  leadComponents pieces ++ pieces.filterMap ofPiece

/-- The path with `tail` appended; an absolute `tail` stands for itself. -/
def join (base tail : Path) : Path :=
  if tail.isAbsolute then tail
  else if base.text == "" || Text.endsIn base.text "/" then ⟨base.text ++ tail.text⟩
  else ⟨base.text ++ "/" ++ tail.text⟩

def ofComponents (components : List Component) : Path :=
  components.foldl (fun path component => path.join ⟨component.text⟩) ⟨""⟩

/-- The path without the names of its ending that stand for nothing. -/
def dropFillers (pieces : List String) : List String :=
  (pieces.reverse.dropWhile isFiller).reverse

def ofPieces (start body : List String) : Path :=
  match start, body with
  | [""], [] => ⟨"/"⟩
  | _, _ => ⟨Text.joinWith "/" (start ++ body)⟩

/-- The pieces after the start of a path, without those at the end that stand for nothing. -/
def body (path : Path) : List String :=
  let pieces := Text.splitOn '/' path.text
  dropFillers (pieces.drop (lead pieces).length)

/-- The directory a path lies in, as it was written; none for the root and the empty path. -/
def parent? (path : Path) : Option Path :=
  let start := lead (Text.splitOn '/' path.text)
  match path.body with
  | [] => if start == ["."] then some ⟨""⟩ else none
  | pieces => some (ofPieces start (dropFillers pieces.dropLast))

/-- The directory a path lies in, empty when there is none. -/
def directory (path : Path) : Path := path.parent?.getD ⟨""⟩

/-- The last component if it is a name. -/
def fileName? (path : Path) : Option String :=
  path.body.getLast?.filter (· != "..")

/-- Where the extension of a file name starts: at its last dot, unless that is
the first character. -/
def splitExtension (name : String) : String × Option String :=
  let reversed := name.toList.reverse
  let ending := reversed.takeWhile (· != '.')
  match reversed.drop ending.length with
  | _ :: before =>
    if before.isEmpty then (name, none)
    else (String.ofList before.reverse, some (String.ofList ending.reverse))
  | [] => (name, none)

/-- The part of the file name after its last dot. -/
def extension? (path : Path) : Option String :=
  path.fileName?.bind fun name => (splitExtension name).2

/-- The path with the extension of its file name replaced or added. -/
def withExtension (path : Path) (extension : String) : Path :=
  match path.fileName? with
  | none => path
  | some name =>
    let start := lead (Text.splitOn '/' path.text)
    ofPieces start (path.body.dropLast ++ [(splitExtension name).1 ++ "." ++ extension])

/-- One step of normalizing, on the components found so far, last first: a parent
takes the last one away, except the root, which it cannot leave. -/
def resolve (done : List Component) (next : Component) : List Component :=
  match next, done with
  | .current, done => done
  | .parent, [] => [.parent]
  | .parent, .root :: above => .parent :: .root :: above
  | .parent, _ :: above => above
  | component, done => component :: done

/-- The path with its dots and parents resolved. -/
def normalize (path : Path) : Path :=
  ofComponents (path.components.foldl resolve []).reverse

def dropLeading : List Component → List Component → Option (List Component)
  | [], components => some components
  | _, [] => none
  | first :: rest, component :: components =>
    if first = component then dropLeading rest components else none

/-- The path relative to a directory that it lies in or equals. -/
def relativeTo? (path base : Path) : Option Path :=
  (dropLeading base.components path.components).map ofComponents

/-- The order of the kinds of components. -/
def Component.rank : Component → Nat
  | .root => 0
  | .current => 1
  | .parent => 2
  | .name _ => 3

/-- The order of components: by kind, names by their characters. -/
def Component.compare (left right : Component) : Ordering :=
  match left, right with
  | .name left, .name right => Ord.compare left right
  | left, right => Ord.compare left.rank right.rank

def compareComponents : List Component → List Component → Ordering
  | [], [] => .eq
  | [], _ => .lt
  | _, [] => .gt
  | left :: lefts, right :: rights =>
    match left.compare right with
    | .eq => compareComponents lefts rights
    | order => order

/-- Whether a path comes before another one or is the same. -/
def notAfter (left right : Path) : Bool :=
  compareComponents left.components right.components != .gt

/-- The paths in order, each once. -/
def sortedSet (paths : List Path) : List Path :=
  paths.eraseDups.mergeSort notAfter

/-- The deepest directory that holds all paths, starting from that of the first. -/
def shrinkTo (common : List Component) (path : Path) : List Component :=
  if (dropLeading common path.components).isSome then common
  else
    match common with
    | [] => []
    | [.root] => [.root]
    | first :: rest => shrinkTo ((first :: rest).dropLast) path
termination_by common.length
decreasing_by simp

/-- The deepest directory that holds all of some files. -/
def commonDirectory : List Path → Path
  | [] => ⟨""⟩
  | first :: rest => ofComponents (rest.foldl shrinkTo first.directory.components)

end Path

end Haxify
