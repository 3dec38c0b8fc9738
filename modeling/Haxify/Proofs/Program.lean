import Haxify.Project.Program
import Mathlib.Data.List.Nodup

/-!
# How a program is put together

What one source adds to the files before it, and what therefore holds of the files of every
assembled program: each has the address of its own path, and no two files that modules are
made of have the same one.
-/

namespace Haxify.Program

open List
open TypeScript (SourceKind Node)

variable {ε α β : Type} {source : String}
variable {grammar : Grammar} {root : Path} {basePackage : String} {sources : List (Path × String)}
variable {program : Program} {path : Path}

def fileOf (basePackage : String) (path relative : Path) (kind : SourceKind)
    (source : String) (tree : Node) : SourceFile where
  path := path
  relative := relative
  kind := kind
  source := source
  tree := tree
  address := Haxe.Address.ofSource relative basePackage
  imports := TypeScript.importsOf tree
  exports := TypeScript.exportsOf tree

theorem bind_eq_ok {first : Except ε α} {next : α → Except ε β} {value : β} :
    first >>= next = .ok value ↔ ∃ middle, first = .ok middle ∧ next middle = .ok value := by
  cases first with
  | error reason | ok middle => simp [bind, Except.bind]

theorem bind_eq_error {first : Except ε α} {next : α → Except ε β} {reason : ε} :
    first >>= next = .error reason ↔
      first = .error reason ∨ ∃ middle, first = .ok middle ∧ next middle = .error reason := by
  cases first with
  | error early | ok middle => simp [bind, Except.bind]

theorem exists_eq_ok {outcome : Except ε α} (accepted : outcome.isOk) :
    ∃ value, outcome = .ok value := by
  cases outcome with
  | error reason => simp [Except.isOk, Except.toBool] at accepted
  | ok value => exact ⟨value, rfl⟩

theorem exists_of_mapM {body : α → Except ε β} {items : List α} {results : List β}
    (run : items.mapM body = .ok results) :
    ∀ result ∈ results, ∃ item ∈ items, body item = .ok result := by
  induction items generalizing results with
  | nil =>
    cases run
    simp
  | cons item rest rest_run =>
    rw [mapM_cons] at run
    obtain ⟨first, here, later⟩ := bind_eq_ok.mp run
    obtain ⟨others, behind, same⟩ := bind_eq_ok.mp later
    cases same
    refine forall_mem_cons.mpr ⟨⟨item, .head _, here⟩, fun result member => ?_⟩
    obtain ⟨origin, listed, run⟩ := rest_run behind result member
    exact ⟨origin, .tail _ listed, run⟩

theorem exists_of_foldlM_eq_error {ε α σ : Type} {step : σ → α → Except ε σ} {items : List α}
    {start : σ} {reason : ε} (run : items.foldlM step start = .error reason) :
    ∃ item ∈ items, ∃ before, step before item = .error reason := by
  induction items generalizing start with
  | nil => cases run
  | cons item rest rest_fails =>
    rw [foldlM_cons] at run
    rcases bind_eq_error.mp run with here | ⟨between, _, later⟩
    · exact ⟨item, .head _, start, here⟩
    · obtain ⟨other, listed, fails⟩ := rest_fails later
      exact ⟨other, .tail _ listed, fails⟩

/-- A source that is taken is no TypeScript and adds nothing, or it lies below the root, has
a tree without faults, claims no address that a module has already, and adds its file. -/
theorem addSource_eq_ok {files added : List SourceFile}
    (run : addSource grammar root basePackage files path source = .ok added) :
    (SourceKind.ofPath? path = none ∧ added = files) ∨
      ∃ kind relative tree, SourceKind.ofPath? path = some kind ∧
        relativePath root path kind = .ok relative ∧
        SourceFile.parse grammar path kind source = .ok tree ∧
        (kind ≠ .declaration →
          claimant? files (Haxe.Address.ofSource relative basePackage) = none) ∧
        added = files ++ [fileOf basePackage path relative kind source tree] := by
  rw [addSource] at run
  split at run
  · rename_i other
    exact .inl ⟨other, (Except.ok.inj run).symm⟩
  · rename_i kind found
    obtain ⟨relative, below, checked⟩ := bind_eq_ok.mp run
    refine .inr ?_
    dsimp only at checked
    -- Whether an address is to be looked for or not, what is left is the tree.
    have finish (rest : (SourceFile.parse grammar path kind source >>= fun tree =>
          pure (files ++ [fileOf basePackage path relative kind source tree])) = Except.ok added) :
        ∃ tree, SourceFile.parse grammar path kind source = .ok tree ∧
          added = files ++ [fileOf basePackage path relative kind source tree] := by
      obtain ⟨tree, parsed, same⟩ := bind_eq_ok.mp rest
      exact ⟨tree, parsed, (Except.ok.inj same).symm⟩
    split at checked
    · split at checked
      · cases checked
      rename_i free
      obtain ⟨tree, parsed, same⟩ := finish checked
      have none : claimant? files (Haxe.Address.ofSource relative basePackage) = none := by
        cases claimed : claimant? files (Haxe.Address.ofSource relative basePackage) with
        | none => rfl
        | some first => exact absurd claimed (free first)
      exact ⟨kind, relative, tree, found, below, parsed, fun _ => none, same⟩
    · rename_i declares
      obtain ⟨tree, parsed, same⟩ := finish checked
      exact ⟨kind, relative, tree, found, below, parsed, fun other => absurd other declares, same⟩

theorem assemble_induction (holds : List SourceFile → Prop) (nothing : holds [])
    (step : ∀ files added path source, holds files →
      addSource grammar root basePackage files path source = .ok added → holds added)
    (assembled : assemble grammar root basePackage sources = .ok program) :
    holds program.files := by
  have fold {items : List (Path × String)} {files result : List SourceFile} (before : holds files)
      (run : items.foldlM (fun files (item : Path × String) =>
        addSource grammar root basePackage files item.1 item.2) files = Except.ok result) :
      holds result := by
    induction items generalizing files with
    | nil =>
      rw [foldlM_nil] at run
      exact Except.ok.inj run ▸ before
    | cons item rest rest_holds =>
      rw [foldlM_cons] at run
      obtain ⟨added, taken, behind⟩ := bind_eq_ok.mp run
      exact rest_holds (step files added item.1 item.2 before taken) behind
  obtain ⟨files, run, same⟩ := bind_eq_ok.mp assembled
  cases same
  exact fold nothing run

theorem assemble_of_sorted (sorted : sources.Pairwise fun left right => left.1.notAfter right.1) :
    assemble grammar root basePackage sources = (sources.foldlM (fun files (item : Path × String) =>
        addSource grammar root basePackage files item.1 item.2) []).map
          fun files => ⟨none, root, basePackage, files⟩ := by
  rw [assemble, mergeSort_of_pairwise sorted]
  rfl

theorem basePackage_of_assemble
    (assembled : assemble grammar root basePackage sources = .ok program) :
    program.basePackage = basePackage := by
  obtain ⟨_, _, same⟩ := bind_eq_ok.mp assembled
  cases same
  rfl

def addresses (files : List SourceFile) : List Haxe.Address :=
  (files.filter (·.isLowered)).map (·.address)

theorem parse_eq_ok {kind : SourceKind} {tree : Node} :
    SourceFile.parse grammar path kind source = .ok tree ↔
      grammar kind source = some tree ∧ tree.firstFault? = none := by
  rw [SourceFile.parse]
  cases grammar kind source with
  | none => simp
  | some given =>
    dsimp only
    cases fault : given.firstFault? with
    | none =>
      simp only [Except.ok.injEq, Option.some.injEq]
      exact ⟨fun same => ⟨same, same ▸ fault⟩, And.left⟩
    | some token =>
      simp only [Option.some.injEq, reduceCtorEq, false_iff, not_and]
      rintro rfl
      simp [fault]

variable (assembled : assemble grammar root basePackage sources = .ok program)
include assembled

theorem exists_fileOf_of_assemble :
    ∀ file ∈ program.files, ∃ path relative kind source tree,
      SourceFile.parse grammar path kind source = .ok tree ∧
        file = fileOf basePackage path relative kind source tree := by
  refine assemble_induction (fun files => ∀ file ∈ files, ∃ path relative kind source tree,
    SourceFile.parse grammar path kind source = .ok tree ∧
      file = fileOf basePackage path relative kind source tree) (by simp) ?_ assembled
  intro files added path source before run
  rcases addSource_eq_ok run with ⟨_, rfl⟩ | ⟨kind, relative, tree, _, _, parsed, _, rfl⟩
  · exact before
  · intro file member
    rcases mem_append.mp member with earlier | new
    · exact before file earlier
    · exact ⟨path, relative, kind, source, tree, parsed, mem_singleton.mp new⟩

theorem address_eq_ofSource :
    ∀ file ∈ program.files, file.address = Haxe.Address.ofSource file.relative basePackage := by
  intro file member
  obtain ⟨_, _, _, _, _, _, rfl⟩ := exists_fileOf_of_assemble assembled file member
  rfl

theorem nodup_addresses : (addresses program.files).Nodup := by
  refine assemble_induction (fun files => (addresses files).Nodup) nodup_nil ?_ assembled
  intro files added path source before run
  rcases addSource_eq_ok run with ⟨_, rfl⟩ | ⟨kind, relative, tree, _, _, _, free, rfl⟩
  · exact before
  · rw [addresses, filter_append, map_append, nodup_append']
    refine ⟨before, ?_, ?_⟩
    · exact List.Nodup.map_on (by simp +contextual) ((nodup_singleton _).filter _)
    · intro address earlier new
      obtain ⟨file, kept, same⟩ := mem_map.mp new
      obtain ⟨listed, lowered⟩ := mem_filter.mp kept
      rw [mem_singleton] at listed
      subst listed
      have other : kind ≠ .declaration := by simpa [SourceFile.isLowered, fileOf] using lowered
      obtain ⟨first, claimed, equal⟩ := mem_map.mp earlier
      obtain ⟨known, firstLowered⟩ := mem_filter.mp claimed
      have differs := find?_eq_none.mp (free other) first known
      exact differs (by rw [firstLowered, equal, ← same]; simp [fileOf])

omit assembled

theorem map_address_lowered (program : Program) :
    program.lowered.map (·.2.address) = addresses program.files := by
  have firsts : (program.files.zipIdx.filter (·.1.isLowered)).map (·.1) =
      program.files.filter (·.isLowered) := by
    rw [← zipIdx_map_fst 0 program.files, filter_map, zipIdx_map_fst]
    rfl
  rw [lowered, map_map, addresses, ← firsts, map_map]
  rfl

theorem exists_of_findFrom {start number : Nat} {files : List SourceFile}
    (found : findFrom path start files = some number) :
    ∃ offset file, number = start + offset ∧ files[offset]? = some file ∧ file.path = path := by
  induction files generalizing start with
  | nil => cases found
  | cons first rest rest_found =>
    rw [findFrom] at found
    cases behind : findFrom path (start + 1) rest with
    | some later =>
      rw [behind, Option.some_or] at found
      cases found
      obtain ⟨offset, file, same, listed, here⟩ := rest_found behind
      exact ⟨offset + 1, file, by omega, listed, here⟩
    | none =>
      rw [behind, Option.none_or] at found
      split at found
      · rename_i here
        cases found
        exact ⟨0, first, rfl, rfl, here⟩
      · cases found

theorem lt_of_resolveFrom {specifier : String} {target : Nat}
    (resolved : program.resolveFrom path specifier = .project target) :
    target < program.files.length := by
  rw [resolveFrom] at resolved
  split at resolved
  · split at resolved
    · rename_i number found
      cases resolved
      obtain ⟨candidate, _, listed⟩ := exists_of_findSome?_eq_some found
      obtain ⟨offset, file, same, there, _⟩ := exists_of_findFrom listed
      obtain ⟨inside, _⟩ := List.getElem?_eq_some_iff.mp there
      omega
    · cases resolved
  · cases resolved

end Haxify.Program
