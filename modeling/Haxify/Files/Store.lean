import Haxify.Path

/-!
# A file store

Files and directories as data, with the answers that an operating system gives:
paths are followed component by component, a missing name, a file where a
directory is needed and a directory where a file is needed are told apart. There
are no links, so a parent component leads back the way it came.
-/

namespace Haxify.Files

/-- What a file holds. -/
inductive Contents where
  | text (value : String)
  /-- Bytes that are not text in UTF-8. -/
  | bytes (value : List UInt8)
deriving DecidableEq, Repr

def Contents.ofBytes (raw : List UInt8) : Contents :=
  match String.fromUTF8? (ByteArray.mk raw.toArray) with
  | some decoded => .text decoded
  | none => .bytes raw

/-- Why an operation on files failed. -/
inductive Failure where
  | notFound
  /-- There is something of this name already. -/
  | exists
  | notDirectory
  /-- A directory stands where a file is needed. -/
  | isDirectory
  /-- A path that ends in a dot cannot be removed. -/
  | invalidArgument
  /-- A directory that is not empty cannot be removed. -/
  | notEmpty
  /-- A file is not text in UTF-8. -/
  | notText
deriving DecidableEq, Repr

def Failure.message : Failure → String
  | .notFound => "No such file or directory (os error 2)"
  | .exists => "File exists (os error 17)"
  | .notDirectory => "Not a directory (os error 20)"
  | .isDirectory => "Is a directory (os error 21)"
  | .invalidArgument => "Invalid argument (os error 22)"
  | .notEmpty => "Directory not empty (os error 39)"
  | .notText => "stream did not contain valid UTF-8"

/-- What stands at a place in the store. -/
inductive Entry where
  | file (contents : Contents)
  | directory
deriving DecidableEq, Repr

/-- The names from the root directory down to a place. -/
abbrev Place := List String

/-- Files and directories, and the directory that relative paths start from. -/
structure Store where
  /-- Where relative paths start. -/
  workingDirectory : Path
  /-- What stands at each place but the root, at most one entry a place. -/
  entries : List (Place × Entry)
deriving DecidableEq, Repr

namespace Store

/-- What stands at a place; the root is always a directory. -/
def entry? (store : Store) (place : Place) : Option Entry :=
  if place = [] then some .directory else store.entries.lookup place

def hasDirectory (store : Store) (place : Place) : Bool :=
  store.entry? place == some .directory

/-- The place that one piece of a path leads to. Every piece, also an empty one or a
dot, needs a directory to start from. -/
def follow (store : Store) (place : Place) (piece : String) : Except Failure Place :=
  match store.entry? place with
  | none => .error .notFound
  | some (.file _) => .error .notDirectory
  | some .directory =>
    .ok (if Path.isFiller piece then place
      else if piece == ".." then place.dropLast
      else place ++ [piece])

def followAll (store : Store) (place : Place) : List String → Except Failure Place
  | [] => .ok place
  | piece :: rest => do
    let next ← store.follow place piece
    store.followAll next rest

/-- The place of a path, which need not hold anything. The empty path leads nowhere. -/
def place (store : Store) (path : Path) : Except Failure Place :=
  if path.text == "" then .error .notFound
  else store.followAll [] (Text.splitOn '/' (store.workingDirectory.join path).text)

def find (store : Store) (path : Path) : Except Failure Entry := do
  match store.entry? (← store.place path) with
  | some entry => .ok entry
  | none => .error .notFound

def isFile (store : Store) (path : Path) : Bool :=
  match store.find path with
  | .ok (.file _) => true
  | _ => false

def isDirectory (store : Store) (path : Path) : Bool :=
  match store.find path with
  | .ok .directory => true
  | _ => false

/-- The contents of the file at a path. -/
def read (store : Store) (path : Path) : Except Failure Contents := do
  match ← store.find path with
  | .file contents => .ok contents
  | .directory => .error .isDirectory

def readText (store : Store) (path : Path) : Except Failure String := do
  match ← store.read path with
  | .text text => .ok text
  | .bytes _ => .error .notText

/-- Entries with what stands at one place replaced or added. -/
def put (place : Place) (entry : Entry) : List (Place × Entry) → List (Place × Entry)
  | [] => [(place, entry)]
  | (known, old) :: rest =>
    if known = place then (place, entry) :: rest else (known, old) :: put place entry rest

def withoutBelow (place : Place) (entries : List (Place × Entry)) : List (Place × Entry) :=
  entries.filter fun entry => !place.isPrefixOf entry.1

/-- Makes one directory, whose parent must be there. -/
def makeDirectory (store : Store) (path : Path) : Except Failure Store := do
  let place ← store.place path
  if (store.entry? place).isSome then throw .exists
  return { store with entries := put place .directory store.entries }

/-- Makes the directory given by the first of some paths, each the parent of the one
before it, making those that are missing first. -/
def makeChain (store : Store) : List Path → Except Failure Store
  | [] => .ok store
  | path :: parents =>
    match store.makeDirectory path with
    | .ok made => .ok made
    | .error .notFound => do
      let above ← store.makeChain parents
      match above.makeDirectory path with
      | .ok made => .ok made
      | .error failure => if above.isDirectory path then .ok above else .error failure
    | .error failure => if store.isDirectory path then .ok store else .error failure

/-- A path with as many parents of it as asked for, up to the root or the empty path. -/
def ancestors : Nat → Path → List Path
  | 0, _ => []
  | count + 1, path =>
    match path.parent? with
    | none => []
    | some above => if path.text == "" then [] else path :: ancestors count above

/-- Makes a directory and all that are missing above it. -/
def makeDirectories (store : Store) (path : Path) : Except Failure Store :=
  store.makeChain (ancestors (path.components.length + 1) path)

/-- Puts a file at a path whose directory is there, in place of a file that is there. -/
def write (store : Store) (path : Path) (contents : Contents) : Except Failure Store := do
  let place ← store.place path
  if store.hasDirectory place then throw .isDirectory
  return { store with entries := put place (.file contents) store.entries }

def removeFile (store : Store) (path : Path) : Except Failure Store := do
  let place ← store.place path
  match store.entry? place with
  | none => throw .notFound
  | some .directory => throw .isDirectory
  | some (.file _) => return { store with entries := withoutBelow place store.entries }

/-- Takes a directory away with all that is below it. The contents go first, so they
are gone also when the directory itself cannot be removed under the given path. -/
def removeDirectories (store : Store) (path : Path) : Except Failure Unit × Store :=
  match store.place path with
  | .error failure => (.error failure, store)
  | .ok place =>
    match store.entry? place with
    | none => (.error .notFound, store)
    | some (.file _) => (.error .notDirectory, store)
    | some .directory =>
      let emptied := { store with
        entries := put place .directory (withoutBelow place store.entries) }
      match (Text.splitOn '/' path.text).getLast? with
      | some "." => (.error .invalidArgument, emptied)
      | some ".." => (.error .notEmpty, emptied)
      | _ => (.ok (), { store with entries := withoutBelow place store.entries })

def filesBelow (store : Store) (place : Place) : List (List String × Contents) :=
  store.entries.filterMap fun (found, entry) =>
    match entry with
    | .file contents =>
      if place.isPrefixOf found && found.length > place.length then
        some (found.drop place.length, contents)
      else none
    | .directory => none

/-- A store with the directories down to a working directory and nothing else. -/
def empty (workingDirectory : Path) : Store :=
  let names := (Text.splitOn '/' workingDirectory.text).filter (· != "")
  { workingDirectory
    entries := (List.range names.length).map fun count =>
      (names.take (count + 1), .directory) }

end Store

end Haxify.Files
