import Haxify.Proofs.DisciplineOfFiles
import Haxify.Proofs.Interfaces

/-!
# A file depends on other files through their interfaces alone

A lowering that runs alike in contexts that agree is blind to everything else, and to be blind
is a discipline. Programs with the same interfaces, and registries with the same addresses,
make contexts that agree. So the module made of a file, or the reason why there is none, does
not depend on the texts of the other files, nor on what is used of foreign modules.
-/

namespace Haxify.Lower

variable {α β : Type}

section Blindness

/-- A lowering that runs alike in contexts that agree. -/
def Blind (body : Lowering α) : Prop :=
  ∀ (first second : Context) (state : State), first.Agrees second →
    body.evaluate first state = body.evaluate second state

theorem blind_bind {held : α → Prop} {first : Lowering α} {next : α → Lowering β}
    (head : Blind first) (gives : ∀ context, Gives context held first)
    (tail : ∀ value, held value → Blind (next value)) : Blind (first >>= next) := by
  intro one other state agrees
  rw [Lowering.evaluate_bind, Lowering.evaluate_bind, ← head one other state agrees]
  cases outcome : first.evaluate one state with
  | mk result between =>
    cases result with
    | ok value => exact tail value (gives _ _ _ _ outcome) one other between agrees
    | error reason => rfl

theorem blind_names {next : View → Lowering α}
    (same : ∀ first second, first.Agrees second → next first = next second)
    (each : ∀ view, Blind (next view)) : Blind (view >>= next) := by
  intro first second state agrees
  calc
    (next ⟨first, state.scopes⟩).evaluate first state
        = (next ⟨first, state.scopes⟩).evaluate second state := each _ first second state agrees
    _ = (next ⟨second, state.scopes⟩).evaluate second state := by
      rw [same ⟨first, state.scopes⟩ ⟨second, state.scopes⟩ ⟨agrees, rfl⟩]

theorem blind_surroundings {next : Context → Lowering α}
    (same : ∀ first second, first.Agrees second → next first = next second)
    (each : ∀ context, Blind (next context)) : Blind (read >>= next) := by
  intro first second state agrees
  calc
    (next first).evaluate first state
        = (next first).evaluate second state := each _ first second state agrees
    _ = (next second).evaluate second state := by rw [same first second agrees]

theorem blind_freshTemp : Blind freshTemp := by
  intro first second state agrees
  have same (context : Context) : freshTemp.evaluate context state =
      let number := Text.leastFree tempName context.takenTemps state.nextTemp
      (.ok (tempName number), { state with nextTemp := number + 1 }) := rfl
  rw [same, same, agrees.takenTemps]

theorem blind_withScope {body : Lowering α} (inside : Blind body) : Blind (withScope body) := by
  intro first second state agrees
  rw [Lowering.evaluate_withScope, Lowering.evaluate_withScope, inside first second _ agrees]

theorem blind_withJump {body : Lowering α} (jump : Jump) (inside : Blind body) :
    Blind (withJump jump body) := by
  intro first second state agrees
  rw [Lowering.evaluate_withJump, Lowering.evaluate_withJump, inside first second _ agrees]

def blindness : Discipline where
  Allows _ holds body := Blind body ∧ ∀ context, Gives context holds body
  Expects _ := True
  Permits _ := True
  foreign _ := true
  legible := False
  value fact := ⟨fun _ _ _ _ => rfl, fun _ => gives_pure fact⟩
  chain head tail := ⟨blind_bind head.1 head.2 fun value fact => (tail value fact).1,
    fun context => gives_bind (head.2 context) fun value fact => (tail value fact).2 context⟩
  refusal reason := ⟨fun _ _ _ _ => rfl, fun _ => gives_throw reason⟩
  gives allowed known := ⟨allowed.1, fun context state value after run =>
    ⟨known context state value after run, allowed.2 context state value after run⟩⟩
  names same each :=
    have each (view : View) := each view (fun _ _ _ _ => rfl) False.elim
    ⟨blind_names same fun view => (each view).1,
      fun context => gives_view fun view _ => (each view).2 context⟩
  surroundings same each := ⟨blind_surroundings same fun context => (each context False.elim).1,
    fun context => gives_read ((each context False.elim).2 context)⟩
  binding _ _ := ⟨fun _ _ _ _ => rfl, fun _ => gives_of_forall fun _ => trivial⟩
  temporary := ⟨blind_freshTemp, fun _ => gives_of_forall fun _ => trivial⟩
  scope inside := ⟨blind_withScope inside.1, fun context => gives_withScope (inside.2 context)⟩
  jump jump _ inside :=
    ⟨blind_withJump jump inside.1, fun context => gives_withJump jump (inside.2 context)⟩
  function inside := ⟨blind_withScope (blind_withJump _ inside.1),
    fun context => gives_withScope (gives_withJump _ (inside.2 context))⟩
  leave {_ node} _ := by
    refine ⟨fun first second state _ => ?_, fun _ => gives_of_forall fun _ => trivial⟩
    obtain ⟨result, run⟩ := evaluate_breakStatement node state
    rw [run, run]
  restart {_ node} _ _ := by
    refine ⟨fun first second state _ => ?_, fun _ => gives_of_forall fun _ => trivial⟩
    obtain ⟨result, gaps, run⟩ := evaluate_continueStatement node state
    rw [run, run]
  ordinary _ _ := trivial
  expected := id
  permitted := id

theorem blind_fileItems : Blind fileItems := by
  rw [fileItems_eq]
  refine blind_surroundings (fun first second agrees => ?_) fun context => ?_
  · rw [agrees.tree]
  · have allowed : blindness.Allows [] _ (itemsOf context.file.tree) :=
      allowed_itemsOf _ (fun _ _ _ => ⟨List.not_mem_nil, fun _ _ => trivial⟩) False.elim
    exact allowed.1

end Blindness

section Imports

variable {first second : Program} {known other : Foreign.Registry}
variable (addresses : known.SameAddresses other)
include addresses

theorem importForeign_congr : importForeign known = importForeign other := by
  funext binding specifier imports
  simp only [importForeign, foreignSpelling, foreignValue, foreignWhole, addresses.memberPath?,
    addresses specifier]

theorem importProject_congr (same : first.SameInterfaces second) :
    importProject first known = importProject second other := by
  have names : importName first known = importName second other := by
    funext binding target imports imported localName
    simp only [importName, same.resolve, same.memberPath, addresses.memberPath?]
  funext binding target imports
  simp only [importProject, same.any_isLowered, names]

theorem importsOf_congr (same : first.SameInterfaces second) {one two : SourceFile}
    (files : one.SameInterface two) :
    importsOf first known one = importsOf second other two := by
  have statement : importStatement first known = importStatement second other := by
    funext path imports binding
    simp only [importStatement, same.resolveFrom, importForeign_congr addresses,
      importProject_congr addresses same]
  rw [importsOf, importsOf, statement, files.imports, files.path]

end Imports

/-- What becomes of a file depends on the other files through their interfaces alone, and on
the foreign modules through their addresses alone. -/
theorem lowerFile_eq_of_sameInterfaces {first second : Program} {known other : Foreign.Registry}
    {index : Nat} {one two : SourceFile} (indent : String) (same : first.SameInterfaces second)
    (addresses : known.SameAddresses other) (here : first.files[index]? = some one)
    (there : second.files[index]? = some two) (source : one.source = two.source)
    (tree : one.tree = two.tree) :
    lowerFile first known indent index one = lowerFile second other indent index two := by
  have files : one.SameInterface two := by
    rcases same.getElem? index with ⟨missing, _⟩ | ⟨_, _, found, matched, files⟩
    · cases missing.symm.trans here
    · cases found.symm.trans here
      cases matched.symm.trans there
      exact files
  rw [lowerFile, lowerFile, importsOf_congr addresses same files]
  cases importsOf second other two with
  | error reason => rfl
  | ok imports =>
    have agrees : Context.Agrees
        ⟨first, known, index, one, indent, imports.spellings, tempNamesIn one.source⟩
        ⟨second, other, index, two, indent, imports.spellings, tempNamesIn two.source⟩ :=
      ⟨rfl, tree, files.exports, rfl, rfl, by rw [source], same.resolve, same.resolveLocal,
        same.memberPath, addresses.memberPath?⟩
    have items := blind_fileItems _ _ .initial agrees
    simp only [items, files.address]

namespace Sample

/-- A file that imports a name from another file and one from a foreign module, and the other
file with some text. -/
def importing (text : String) : Program where
  configPath := none
  root := ⟨"/"⟩
  basePackage := ""
  files :=
    [{ path := ⟨"/a.ts"⟩, relative := ⟨"a.ts"⟩, kind := .script
       source := "import \x7bx\x7d from './b'; import \x7by\x7d from 'm';"
       tree := .node ⟨"program", true, false, "", 0, 0, ⟨1, 1⟩, ""⟩ () []
       address := ⟨"", "A"⟩
       imports := [⟨"./b", none, none, [⟨"x", "x", false⟩], false, ⟨1, 1⟩⟩,
         ⟨"m", none, none, [⟨"y", "y", false⟩], false, ⟨1, 24⟩⟩]
       exports := .empty },
     { path := ⟨"/b.ts"⟩, relative := ⟨"b.ts"⟩, kind := .script
       source := text
       tree := .node ⟨"program", true, false, "", 0, text.length, ⟨1, 1⟩, text⟩ () []
       address := ⟨"", "B"⟩
       imports := []
       exports := { TypeScript.ExportSurface.empty with
         named := [⟨"x", "x", false⟩]
         declarations := [("x", .variable)] } }]

def registered (members : List String) : Foreign.Registry :=
  ⟨[⟨⟨"m", false, members⟩, ⟨"externs", "M"⟩⟩]⟩

end Sample

open Sample

/-- The first of two files becomes the same whatever the text of the second one is, and
whatever else is used of the foreign module. -/
theorem importing_file_is_independent :
    (importing "export var x = 1;").SameInterfaces (importing "export var x = f(2);") ∧
      (registered ["y"]).SameAddresses (registered ["y", "z"]) ∧
      ∃ one two, (importing "export var x = 1;").files[0]? = some one ∧
        (importing "export var x = f(2);").files[0]? = some two ∧
        lowerFile (importing "export var x = 1;") (registered ["y"]) "  " 0 one =
          lowerFile (importing "export var x = f(2);") (registered ["y", "z"]) "  " 0 two := by
  have same : (importing "export var x = 1;").SameInterfaces (importing "export var x = f(2);") :=
    .cons ⟨rfl, rfl, rfl, rfl, rfl⟩ (.cons ⟨rfl, rfl, rfl, rfl, rfl⟩ .nil)
  have addresses : (registered ["y"]).SameAddresses (registered ["y", "z"]) := by
    intro specifier
    by_cases named : specifier = "m"
    · subst named
      rfl
    · have other : ("m" == specifier) = false := beq_eq_false_iff_ne.mpr (Ne.symm named)
      simp [registered, Foreign.Registry.address?, Foreign.Registry.find?, other]
  exact ⟨same, addresses, _, _, rfl, rfl,
    lowerFile_eq_of_sameInterfaces "  " same addresses rfl rfl rfl rfl⟩

end Haxify.Lower
