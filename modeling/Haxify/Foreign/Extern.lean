import Haxify.Foreign.Registry
import Haxify.Haxe.Code
import Haxify.Haxe.Quoted

/-!
# Extern classes

The class that stands for a foreign module in Haxe. It declares what the project
uses and nothing else; a member whose name is not a Haxe identifier keeps it as
its native name.
-/

namespace Haxify.Foreign

/-- A static of an extern class. -/
structure Static where
  name : String
  /-- The name in the foreign module, if it is another one. -/
  native? : Option String
deriving DecidableEq, Repr

def Static.render (static : Static) : String :=
  let declaration := "static var " ++ static.name ++ ": Dynamic;"
  match static.native? with
  | some native => "@:native(" ++ Haxe.quote native ++ ") " ++ declaration
  | none => declaration

def Static.ofMember (member : String) : Static :=
  let name := bindingName member
  ⟨name, if name = member then none else some member⟩

/-- The statics that a module's extern class declares. -/
def Descriptor.statics (descriptor : Descriptor) : List Static :=
  (if descriptor.usesDefault then [⟨Haxe.defaultMember, some "default"⟩] else [])
    ++ descriptor.members.map Static.ofMember

/-- The extern class of a module. -/
def Binding.file (binding : Binding) (indent : String) : Haxe.File :=
  let header := "@:jsRequire(" ++ Haxe.quote binding.descriptor.specifier ++ ") extern class "
    ++ binding.address.moduleName
  let body := binding.descriptor.statics.map fun static => Haxe.Code.line static.render
  { address := binding.address
    text := Haxe.Code.render indent
      ([.line binding.address.declaration, .line ""] ++ Haxe.Code.block header body) ++ "\n" }

end Haxify.Foreign
