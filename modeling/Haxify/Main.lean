import Haxify.Command.Run
import Haxify.TypeScript.Listing

/-!
# The command

Takes the files below the working directory into a store, runs the command on it,
and carries the changes over. The syntax tree of a source is expected in a file next to
it, named like it with `.tree.json` added.
-/

namespace Haxify.Main

partial def entriesBelow (place : Files.Place) (found : List IO.FS.DirEntry) :
    IO (List (Files.Place × Files.Entry)) := do
  let mut entries := []
  for entry in found do
    let here := place ++ [entry.fileName]
    if ← entry.path.isDir then
      let below ← entriesBelow here (← entry.path.readDir).toList
      entries := entries ++ (here, .directory) :: below
    else
      let bytes ← IO.FS.readBinFile entry.path
      entries := entries ++ [(here, .file (.ofBytes bytes.toList))]
  return entries

/-- The store of the files below the working directory. -/
def snapshot : IO Files.Store := do
  let directory ← IO.currentDir
  let store := Files.Store.empty ⟨directory.toString⟩
  let place := (Text.splitOn '/' directory.toString).filter (· != "")
  let below ← entriesBelow place (← directory.readDir).toList
  return { store with entries := store.entries ++ below }

def pathText (place : Files.Place) : String := "/" ++ Text.joinWith "/" place

def treeOf? (store : Files.Store) (place : Files.Place) (source : String) :
    Option TypeScript.Node := do
  let listing ← (store.readText ⟨pathText place ++ ".tree.json"⟩).toOption
  let value ← (Json.read listing).toOption
  TypeScript.Node.ofJson? source value

def grammarOf (store : Files.Store) : Grammar :=
  let trees := store.entries.filterMap fun (place, entry) =>
    match entry, TypeScript.SourceKind.ofPath? ⟨pathText place⟩ with
    | .file (.text source), some kind =>
      (treeOf? store place source).map fun tree => ((kind == .jsx, source), tree)
    | _, _ => none
  fun kind source => trees.lookup (kind == .jsx, source)

/-- Takes away what is in the first store and not in the second. -/
def removeLost (before after : Files.Store) : IO Unit := do
  for (place, entry) in before.entries.reverse do
    if (after.entry? place).isNone then
      match entry with
      | .file _ => IO.FS.removeFile (pathText place)
      | .directory => IO.FS.removeDirAll (pathText place)

def writeChanged (before after : Files.Store) : IO Unit := do
  for (place, entry) in after.entries do
    if before.entry? place != some entry then
      match entry with
      | .directory => IO.FS.createDirAll (pathText place)
      | .file (.text text) => IO.FS.writeFile (pathText place) text
      | .file (.bytes bytes) => IO.FS.writeBinFile (pathText place) ⟨bytes.toArray⟩

end Haxify.Main

/-- Runs the command in the working directory. -/
def main (arguments : List String) : IO UInt32 := do
  let before ← Haxify.Main.snapshot
  let allowsColors := ((← IO.getEnv "CLICOLOR_FORCE").map (· != "0")).getD false
  let (result, after) :=
    Haxify.Command.run (Haxify.Main.grammarOf before) allowsColors arguments before
  Haxify.Main.removeLost before after
  Haxify.Main.writeChanged before after
  IO.print result.output
  IO.eprint result.errors
  return result.exitCode.toUInt32
