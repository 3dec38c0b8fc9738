import Haxify.Proofs.Builtins
import Haxify.Proofs.Reexports

/-!
# Foreign names passed on

A file may offer members of foreign modules to the other files: it passes them on, or imports
them and lists them again. Another file may then import such a member from it. Main statement:
the name is spelled as if it were imported from the foreign module directly, as long as neither
the file that passes it on nor the one that imports it marks it as a type. The marks themselves
are not looked at: a member that is marked is spelled as a value if the foreign module is used
as one anywhere, and its import is refused if it is not.
-/

namespace Haxify.Foreign

open List
open Exports (Lowered NoDefault Unlisted importedAs? resolve)

def marksType (binding : TypeScript.ImportBinding) (localName : String) : Bool :=
  binding.typeOnly || binding.defaultName != some localName &&
    (binding.named.find? (·.localName == localName)).any (·.typeOnly)

/-- A file offers a member of a foreign module under a name, and whether it marks it as a
type. -/
inductive PassesForeign (program : Program) (index : Nat) (name specifier : String)
    (member : Option String) : Bool → Prop where
  | passed {file : SourceFile} {passed : TypeScript.ReExport} (made : Lowered program index file)
      (unlisted : Unlisted file name)
      (found : file.exports.reExports.find? (·.exported == name) = some passed)
      (resolved : program.resolveFrom file.path passed.specifier = .external specifier)
      (part : passed.imported ≠ "*") (same : Exports.foreignMember passed.imported = member) :
      PassesForeign program index name specifier member passed.typeOnly
  | listed {file : SourceFile} {entry : TypeScript.ExportEntry}
      {binding : TypeScript.ImportBinding} {imported : String}
      (made : Lowered program index file) (noDefault : NoDefault file name)
      (found : file.exports.named.find? (·.exported == name) = some entry)
      (plain : entry.isRenamed = false)
      (undeclared : file.exports.kindOf? entry.localName = none)
      (first : file.imports.find? (fun binding =>
        (importedAs? binding entry.localName).isSome) = some binding)
      (taken : importedAs? binding entry.localName = some imported)
      (resolved : program.resolveFrom file.path binding.specifier = .external specifier)
      (part : imported ≠ "*") (same : Exports.foreignMember imported = member) :
      PassesForeign program index name specifier member
        (entry.typeOnly || marksType binding entry.localName)

section Passing

variable {program : Program} {index : Nat} {name specifier : String} {member : Option String}
  {typeOnly : Bool}

theorem firstImport?_of_find? {file : SourceFile} {binding : TypeScript.ImportBinding}
    {localName imported : String}
    (first : file.imports.find? (fun binding =>
      (importedAs? binding localName).isSome) = some binding)
    (taken : importedAs? binding localName = some imported) :
    Exports.firstImport? file localName = some (binding.specifier, imported) := by
  obtain ⟨_, before, after, split, none⟩ := find?_eq_some_iff_append.mp first
  refine findSome?_eq_some_iff.mpr ⟨before, binding, after, split, by rw [taken]; rfl, ?_⟩
  intro other earlier
  have unbound : importedAs? other localName = .none := by simpa using none other earlier
  rw [unbound]
  rfl

namespace PassesForeign

variable (passes : PassesForeign program index name specifier member typeOnly)
include passes

/-- The file that passes a name on is one that a module is made of. -/
theorem lowered : ∃ file, Lowered program index file := by
  cases passes with
  | passed made | listed made => exact ⟨_, made⟩

theorem step_eq :
    Exports.step program (index, name) = .plain (.found (.foreign specifier member)) := by
  cases passes with
  | passed made unlisted found resolved part same =>
    rw [Exports.step_unlisted made unlisted, Exports.passedOn_passed found,
      Exports.importOrigin_foreign resolved part, same]
  | listed made noDefault found plain undeclared first taken resolved part same =>
    rw [Exports.step_listed made noDefault found, if_neg (by rw [plain]; decide),
      Exports.localOrigin_imported undeclared (firstImport?_of_find? first taken),
      Exports.importOrigin_foreign resolved part, same]

theorem resolve_eq : resolve program index name = some (.foreign specifier member) := by
  obtain ⟨file, made⟩ := passes.lowered
  have inside := (List.getElem?_eq_some_iff.mp made.here).1
  rw [resolve, Exports.search_found (Exports.mem_queries.mpr ⟨inside, .head _⟩) passes.step_eq]

theorem justified (value : typeOnly = false) :
    Justified program specifier (useOfMember member) := by
  cases passes with
  | @passed file passed made unlisted found resolved part same =>
    rw [← same, ← useOf_eq]
    have inside := mem_of_find?_eq_some found
    exact .passed ⟨mem_of_getElem? made.here, made.lowered, inside, resolved, part⟩ value
  | @listed file entry binding imported made _ _ _ _ first taken resolved part same =>
    have imports : ImportsFrom program specifier file binding :=
      ⟨mem_of_getElem? made.here, made.lowered, mem_of_find?_eq_some first, resolved⟩
    obtain ⟨_, unmarked⟩ := Bool.or_eq_false_iff.mp value
    obtain ⟨values, unmarkedName⟩ := Bool.or_eq_false_iff.mp unmarked
    rw [← same, ← useOf_eq]
    rw [importedAs?] at taken
    split at taken
    · rename_i isDefault
      cases taken
      exact .default imports values (eq_of_beq isDefault)
    · rename_i noDefault
      split at taken
      · cases taken
        exact absurd rfl part
      · obtain ⟨taker, listed, rfl⟩ := Option.map_eq_some_iff.mp taken
        have value : taker.typeOnly = false := by
          simpa [listed, bne, noDefault] using unmarkedName
        exact .named imports values (mem_of_find?_eq_some listed) value

end PassesForeign

theorem memberPath?_isSome_iff :
    ((registryOf program).memberPath? specifier member).isSome ↔
      ∃ use, Justified program specifier use := by
  have records := records_registryOf program
  rw [Registry.memberPath?, Option.isSome_map, Registry.address?, Option.isSome_map]
  constructor
  · intro known
    obtain ⟨binding, found⟩ := Option.isSome_iff_exists.mp known
    obtain ⟨inside, rfl⟩ := (find?_eq_some_iff records.sorted).mp found
    obtain ⟨use, used⟩ := records.used _ (mem_map_of_mem inside)
    exact ⟨use, mem_fileUses_iff.mp used⟩
  · rintro ⟨use, justified⟩
    obtain ⟨module, listed, same⟩ := records.listed specifier use (mem_fileUses_iff.mpr justified)
    obtain ⟨binding, known, rfl⟩ := mem_map.mp listed
    rw [(find?_eq_some_iff records.sorted).mpr ⟨known, same⟩]
    rfl

end Passing

end Haxify.Foreign

namespace Haxify.Lower

open Foreign

section Importing

variable {program : Program} {index : Nat} {name specifier : String} {member : Option String}
  {typeOnly : Bool} {binding : TypeScript.ImportBinding} {registry : Registry} {imports : Imports}
variable {path : Path}
variable (passes : PassesForeign program index name specifier member typeOnly)
include passes

theorem importName_of_path {path : String}
    (known : registry.memberPath? specifier member = some path) (imports : Imports)
    (localName : String) :
    importName program registry binding index imports name localName =
      .ok (imports.spelling localName (.foreign path)) := by
  simp only [importName, passes.resolve_eq, known]

theorem importName_of_no_path (unknown : registry.memberPath? specifier member = none)
    (imports : Imports) (localName : String) :
    importName program registry binding index imports name localName =
      importError "import_specifier" binding
        ("\"" ++ binding.specifier ++ "\" has no export named " ++ name) := by
  simp only [importName, passes.resolve_eq, unknown]

omit passes in
theorem any_isLowered (made : ∃ file, Exports.Lowered program index file) :
    (program.files[index]?).any (·.isLowered) := by
  obtain ⟨file, made⟩ := made
  rw [made.here]
  exact made.lowered

variable (resolved : program.resolveFrom path binding.specifier = .project index)
include resolved

omit passes in
theorem importStatement_lowered (made : ∃ file, Exports.Lowered program index file) :
    importStatement program registry path imports binding =
      (wantedNames binding).foldlM (fun imports wanted =>
        importName program registry binding index imports wanted.1 wanted.2)
        (binding.wholeName.toList.foldl (fun imports name =>
          imports.spelling name (.projectModule index)) imports) := by
  have lowered := any_isLowered made
  rw [importStatement, resolved]
  dsimp only
  rw [importProject]
  dsimp only
  rw [if_pos lowered, if_pos lowered]

theorem spelled_of_importStatement {memberPath localName : String} {after : Imports}
    (known : registry.memberPath? specifier member = some memberPath)
    (wanted : (name, localName) ∈ wantedNames binding)
    (run : importStatement program registry path imports binding = .ok after) :
    (localName, .foreign memberPath) ∈ after.spellings := by
  have made := any_isLowered passes.lowered
  exact (brings_importStatement run (.spelled localName (.foreign memberPath))).mpr
    (.inr (.named resolved made wanted (.foreign passes.resolve_eq known)))

theorem other_of_importStatement_error {memberPath : String} {reason : Unsupported}
    (known : registry.memberPath? specifier member = some memberPath)
    (run : importStatement program registry path imports binding = .error reason) :
    ∃ wanted ∈ wantedNames binding, wanted.1 ≠ name ∧ ∃ before,
      importName program registry binding index before wanted.1 wanted.2 = .error reason := by
  rw [importStatement_lowered resolved passes.lowered] at run
  obtain ⟨wanted, listed, before, fails⟩ := Program.exists_of_foldlM_eq_error run
  refine ⟨wanted, listed, ?_, before, fails⟩
  rintro rfl
  cases (importName_of_path passes known before wanted.2).symm.trans fails

end Importing

namespace Sample

def passer (typeOnly : Bool) : SourceFile :=
  Exports.Sample.file "/a.ts"
    { TypeScript.ExportSurface.empty with reExports := [⟨"lib", "T", "T", typeOnly⟩] }

def taker (specifier : String) : SourceFile :=
  { Exports.Sample.file "/b.ts" .empty with
    imports := [⟨specifier, none, none, [⟨"T", none, false⟩], true, ⟨1, 1⟩⟩] }

/-- The second of two files imports a name that the first one passes on from a foreign module, as
a type or as a value. -/
def passing (typeOnly : Bool) : Program where
  configPath := none
  root := ⟨"/"⟩
  basePackage := "app"
  files := [passer typeOnly, taker "./a"]

theorem passing_passes (typeOnly : Bool) :
    PassesForeign (passing typeOnly) 0 "T" "lib" (some "T") typeOnly := by
  have made : Exports.Lowered (passing typeOnly) 0 (passer typeOnly) := ⟨rfl, rfl⟩
  have found : (passer typeOnly).exports.reExports.find? (·.exported == "T") =
      some ⟨"lib", "T", "T", typeOnly⟩ := rfl
  have resolved : (passing typeOnly).resolveFrom (passer typeOnly).path "lib" =
      .external "lib" := by cases typeOnly <;> decide
  have unlisted : Exports.Unlisted (passer typeOnly) "T" := ⟨fun _ => rfl, rfl⟩
  exact .passed made unlisted found resolved (show "T" ≠ "*" by decide) rfl

end Sample

open Sample

/-- A member of a foreign module that a file passes on is spelled where it is imported as if it
were imported directly exactly if it is marked as a type at neither place. One that is passed on
as a value is always spelled by the path of a static that the extern class declares, and an import
never fails because of it. One that is passed on as a type is spelled by such a path too if some
file uses the foreign module as a value, and refused otherwise. -/
theorem passed_foreign_names_are_imported_as_values {program : Program} {index : Nat}
    {name specifier : String} {member : Option String} {typeOnly : Bool}
    (passes : PassesForeign program index name specifier member typeOnly) :
    (∀ binding direct imports localName marked,
      importName program (registryOf program) binding index imports name localName =
          (do return imports.spelling localName (← foreignSpelling (registryOf program) direct
            specifier (typeOnly || marked) member)) ↔
        typeOnly = false ∧ marked = false) ∧
      (typeOnly = false → ∃ path,
        (registryOf program).memberPath? specifier member = some path ∧
          Foreign.Declares (registryOf program) specifier path ∧
          ∀ importer binding imports localName,
            program.resolveFrom importer binding.specifier = .project index →
              (name, localName) ∈ wantedNames binding →
                (∀ after, importStatement program (registryOf program) importer imports binding =
                    .ok after → (localName, .foreign path) ∈ after.spellings) ∧
                  ∀ reason, importStatement program (registryOf program) importer imports
                      binding = .error reason →
                    ∃ wanted ∈ wantedNames binding, wanted.1 ≠ name ∧ ∃ before,
                      importName program (registryOf program) binding index before wanted.1
                        wanted.2 = .error reason) ∧
      ∀ binding imports localName,
        (∃ path, importName program (registryOf program) binding index imports name localName =
            .ok (imports.spelling localName (.foreign path))) ∧
          (∃ use, Justified program specifier use) ∨
        importName program (registryOf program) binding index imports name localName =
            importError "import_specifier" binding
              ("\"" ++ binding.specifier ++ "\" has no export named " ++ name) ∧
          ¬∃ use, Justified program specifier use := by
  refine ⟨fun binding direct imports localName marked => ?_, fun value => ?_,
    fun binding imports localName => ?_⟩
  · constructor
    · intro same
      by_contra typed
      have isType : (typeOnly || marked) = true := by
        simpa [← Bool.or_eq_false_iff] using typed
      rw [foreignSpelling, if_pos isType] at same
      cases known : (registryOf program).memberPath? specifier member with
      | some path =>
        rw [importName_of_path passes known] at same
        cases same
      | none =>
        rw [importName_of_no_path passes known] at same
        cases same
    · rintro ⟨value, unmarked⟩
      obtain ⟨path, known, _⟩ := exists_memberPath (passes.justified value)
      rw [importName_of_path passes known, value, unmarked]
      simp only [foreignSpelling, foreignValue, known]
      rfl
  · obtain ⟨path, known, declares⟩ := exists_memberPath (passes.justified value)
    refine ⟨path, known, declares, fun importer binding imports localName resolved wanted => ?_⟩
    exact ⟨fun after => spelled_of_importStatement passes resolved known wanted,
      fun reason => other_of_importStatement_error passes resolved known⟩
  · have used : ((registryOf program).memberPath? specifier member).isSome ↔
        ∃ use, Justified program specifier use := memberPath?_isSome_iff
    cases known : (registryOf program).memberPath? specifier member with
    | some path =>
      rw [known] at used
      exact .inl ⟨⟨path, importName_of_path passes known imports localName⟩, used.mp rfl⟩
    | none =>
      rw [known] at used
      refine .inr ⟨importName_of_no_path passes known imports localName, fun some => ?_⟩
      cases used.mpr some

/-- A member that is passed on as a value is imported. -/
theorem passed_member_is_imported_as_value :
    PassesForeign (passing false) 0 "T" "lib" (some "T") false ∧
      ∃ path, Foreign.Declares (registryOf (passing false)) "lib" path ∧
        ∀ after, importStatement (passing false) (registryOf (passing false)) ⟨"/b.ts"⟩
          .none ⟨"./a", none, none, [⟨"T", none, false⟩], false, ⟨1, 1⟩⟩ = .ok after →
            ("T", .foreign path) ∈ after.spellings := by
  have passes := passing_passes false
  obtain ⟨path, _, declares, imported⟩ :=
    (passed_foreign_names_are_imported_as_values passes).2.1 rfl
  refine ⟨passes, path, declares, (imported _ _ _ _ (by decide) (by decide)).1⟩

/-- A type that is passed on as a type and imported as one is refused, while the import from the
foreign module itself is not. -/
theorem type_passed_on_is_refused :
    importsOf (passing true) (registryOf (passing true)) (taker "./a") =
        .error ⟨"import_specifier", ⟨1, 1⟩, "\"./a\" has no export named T"⟩ ∧
      importsOf (passing true) (registryOf (passing true)) (taker "lib") =
        .ok ⟨[], [("T", .foreignType)]⟩ := by
  constructor
  · have resolved : (passing true).resolveFrom (taker "./a").path "./a" =
        .project 0 := by decide
    have unknown : (registryOf (passing true)).memberPath? "lib" (some "T") = none := by
      decide +kernel
    have passes := passing_passes true
    change List.foldlM _ _ [_] = _
    rw [List.foldlM_cons, importStatement_lowered resolved passes.lowered]
    change (List.foldlM _ _ [("T", "T")] >>= _) = _
    rw [List.foldlM_cons, importName_of_no_path passes unknown]
    rfl
  · decide +kernel

end Haxify.Lower
