import Haxify.Project.Discovery
import Haxify.Project.Program

/-!
# Loading a project

From a configuration file to the program of all files it selects.
-/

namespace Haxify.Program

/-- Whether a path is not that of a declaration file. -/
def isInput (path : Path) : Bool :=
  TypeScript.SourceKind.ofPath? path != some .declaration

def readSource (store : Files.Store) (path : Path) : Except ProjectError (Path × String) :=
  match store.readText path with
  | .ok text => .ok (path, text)
  | .error failure => .error (.unreadable path failure)

def load (grammar : Grammar) (store : Files.Store) (configPath : Path) (basePackage : String) :
    Except ProjectError Program := do
  let config ← Config.load store configPath
  let paths ← Discovery.discover store config
  if !(paths.any isInput) then throw (.noInputs config.path)
  let root := config.rootDir.getD (Path.commonDirectory (paths.filter isInput))
  let sources ← paths.mapM (readSource store)
  let program ← assemble grammar root basePackage sources
  return { program with configPath := some config.path }

end Haxify.Program
