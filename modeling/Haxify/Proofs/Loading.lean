import Haxify.Command.Run
import Haxify.Proofs.SourceOrder

/-!
# What loading a project gives

Loading finds the files of a configuration, reads them and puts a program together. Main
statement: it reports that there is nothing to work on if and only if all files that were found
are declarations. A program that was loaded has the TypeScript files that were found, but these
need not be more than declarations, because listed files of other kinds count as well.
-/

namespace Haxify

open List
open TypeScript.SourceKind (ofPath?)
open Discovery (discover)

theorem exists_of_mapM_eq_error {α β : Type} {body : α → Except ProjectError β} {items : List α}
    {reason : ProjectError} (run : items.mapM body = .error reason) :
    ∃ item ∈ items, body item = .error reason := by
  induction items with
  | nil => cases run
  | cons item rest rest_run =>
    rw [mapM_cons] at run
    rcases Program.bind_eq_error.mp run with here | ⟨_, _, later⟩
    · exact ⟨item, .head _, here⟩
    · rcases Program.bind_eq_error.mp later with behind | ⟨_, _, impossible⟩
      · obtain ⟨other, member, fails⟩ := rest_run behind
        exact ⟨other, .tail _ member, fails⟩
      · cases impossible

namespace Discovery

variable {store : Files.Store} {config : Config.Resolved} {paths : List Path}

theorem discover_eq_ok (found : discover store config = .ok paths) : ∃ listed matching,
    config.files.elim (pure []) (listedFiles store) = .ok listed ∧
      (includePatterns config).elim (pure []) (matchingFiles store config) = .ok matching ∧
      paths = Path.sortedSet (listed ++ matching) := by
  have unfolded : discover store config = (do
      let listed ← config.files.elim (pure []) (listedFiles store)
      let matching ← (includePatterns config).elim (pure []) (matchingFiles store config)
      return Path.sortedSet (listed ++ matching)) := by
    rw [discover]
    cases config.files <;> cases includePatterns config <;> rfl
  rw [unfolded] at found
  obtain ⟨listed, names, found⟩ := Program.bind_eq_ok.mp found
  obtain ⟨matching, walked, same⟩ := Program.bind_eq_ok.mp found
  exact ⟨listed, matching, names, walked, (Except.ok.inj same).symm⟩

/-- Every file that is found is named or reached from the directory of a configuration. -/
theorem exists_of_discover (found : discover store config = .ok paths) {path : Path}
    (member : path ∈ paths) : ∃ set name,
      (config.files = some set ∨ includePatterns config = some set) ∧
        path = (set.base.join ⟨name⟩).normalize := by
  obtain ⟨listed, matching, names, walked, rfl⟩ := discover_eq_ok found
  rw [Path.sortedSet, mem_mergeSort, mem_eraseDups, mem_append] at member
  rcases member with inside | inside
  · cases set : config.files with
    | none =>
      rw [set] at names
      cases names
      cases inside
    | some files =>
      rw [set] at names
      obtain ⟨name, _, rule⟩ := Program.exists_of_mapM names path inside
      dsimp only at rule
      split at rule
      · cases rule
        exact ⟨files, name, .inl rfl, rfl⟩
      · cases rule
  · cases set : includePatterns config with
    | none =>
      rw [set] at walked
      cases walked
      cases inside
    | some patterns =>
      rw [set] at walked
      obtain ⟨taken, _, walked⟩ := Program.bind_eq_ok.mp walked
      obtain ⟨leftOut, _, walked⟩ := Program.bind_eq_ok.mp walked
      dsimp only at walked
      split at walked
      · cases walked
      · obtain rfl := Except.ok.inj walked
        obtain ⟨entry, _, rfl⟩ := mem_map.mp inside
        exact ⟨patterns, _, .inr rfl, rfl⟩

end Discovery

namespace Program


variable {grammar : Grammar} {store : Files.Store} {config : Config.Resolved} {configPath : Path}
variable {root path : Path} {basePackage : String} {paths : List Path} {program : Program}
variable {sources : List (Path × String)} {reason : ProjectError}

/-- Why a source is not added to the files before it. -/
inductive Stops (root path : Path) : ProjectError → Prop where
  | outside (input : isInput path) (apart : path.relativeTo? root = none) :
      Stops root path (.outsideRoot path root)
  | taken (first : Path) (address : Haxe.Address) :
      Stops root path (.addressCollision first path address)
  | noTree : Stops root path (.noTree path)
  | faulty (position : Text.Position) : Stops root path (.faultySource path position)

theorem stops_of_addSource {files : List SourceFile} {source : String}
    (fails : addSource grammar root basePackage files path source = .error reason) :
    Stops root path reason := by
  rw [addSource] at fails
  split at fails
  · cases fails
  rename_i kind isKind
  have parsed {next : TypeScript.Node → List SourceFile}
      (rest : (SourceFile.parse grammar path kind source >>= fun tree => pure (next tree)) =
        Except.error reason) : Stops root path reason := by
    rcases bind_eq_error.mp rest with early | ⟨_, _, impossible⟩
    · rw [SourceFile.parse] at early
      split at early
      · cases early
        exact .noTree
      split at early
      · cases early
        exact .faulty _
      · cases early
    · cases impossible
  rcases bind_eq_error.mp fails with early | ⟨relative, _, late⟩
  · rw [relativePath] at early
    split at early
    · cases early
    rename_i apart
    split at early
    · cases early
    · rename_i other
      cases early
      exact .outside (by simpa [isInput, isKind] using other) apart
  · dsimp only at late
    split at late
    · split at late
      · cases late
        exact .taken _ _
      · exact parsed late
    · exact parsed late

theorem exists_stops_of_assemble
    (fails : assemble grammar root basePackage sources = .error reason) :
    ∃ item ∈ sources, Stops root item.1 reason := by
  rcases bind_eq_error.mp fails with run | ⟨_, _, impossible⟩
  · obtain ⟨item, member, _, stops⟩ := exists_of_foldlM_eq_error run
    exact ⟨item, (inOrder_perm sources).mem_iff.mp member, stops_of_addSource stops⟩
  · cases impossible

/-- The directory that source paths are taken relative to. -/
def rootOf (config : Config.Resolved) (paths : List Path) : Path :=
  config.rootDir.getD (Path.commonDirectory (paths.filter isInput))

theorem load_eq (loaded : Config.load store configPath = .ok config)
    (found : discover store config = .ok paths) :
    load grammar store configPath basePackage =
      if paths.any isInput then do
        let sources ← paths.mapM (readSource store)
        let program ← assemble grammar (rootOf config paths) basePackage sources
        return { program with configPath := some config.path }
      else .error (.noInputs config.path) := by
  rw [load, loaded]
  change (discover store config >>= _) = _
  rw [found]
  change (if _ then _ else _) = _
  cases paths.any isInput <;> rfl

theorem map_fst_of_reads (reads : paths.mapM (readSource store) = .ok sources) :
    sources.map (·.1) = paths := by
  induction paths generalizing sources with
  | nil =>
    cases reads
    rfl
  | cons path rest rest_reads =>
    rw [mapM_cons] at reads
    obtain ⟨first, read, later⟩ := bind_eq_ok.mp reads
    obtain ⟨others, behind, same⟩ := bind_eq_ok.mp later
    cases same
    rw [map_cons, rest_reads behind]
    rw [readSource] at read
    split at read
    · cases read
      rfl
    · cases read

/-- What a program that was loaded is made of. -/
theorem load_eq_ok (done : load grammar store configPath basePackage = .ok program) :
    ∃ config paths sources other, Config.load store configPath = .ok config ∧
      discover store config = .ok paths ∧ paths.any isInput ∧
      sources.map (·.1) = paths ∧
      assemble grammar (rootOf config paths) basePackage sources = .ok other ∧
      program = { other with configPath := some config.path } := by
  obtain ⟨config, loaded, rest⟩ := bind_eq_ok.mp done
  obtain ⟨paths, found, _⟩ := bind_eq_ok.mp rest
  rw [load_eq loaded found] at done
  split at done
  · rename_i some
    obtain ⟨sources, reads, rest⟩ := bind_eq_ok.mp done
    obtain ⟨other, assembled, same⟩ := bind_eq_ok.mp rest
    cases same
    exact ⟨config, paths, sources, other, loaded, found, some, map_fst_of_reads reads, assembled,
      rfl⟩
  · cases done

/-- A configuration that finds inputs is stopped by what cannot be read or added. -/
theorem stops_of_load (loaded : Config.load store configPath = .ok config)
    (found : discover store config = .ok paths) (some : paths.any isInput)
    (fails : load grammar store configPath basePackage = .error reason) :
    ∃ path ∈ paths, (∃ failure, reason = .unreadable path failure) ∨
      Stops (rootOf config paths) path reason := by
  rw [load_eq loaded found, if_pos some] at fails
  rcases bind_eq_error.mp fails with early | ⟨sources, reads, fails⟩
  · obtain ⟨path, member, unread⟩ := exists_of_mapM_eq_error early
    rw [readSource] at unread
    split at unread
    · cases unread
    · cases unread
      exact ⟨path, member, .inl ⟨_, rfl⟩⟩
  rcases bind_eq_error.mp fails with stopped | ⟨_, _, impossible⟩
  · obtain ⟨item, member, stops⟩ := exists_stops_of_assemble stopped
    exact ⟨item.1, map_fst_of_reads reads ▸ mem_map_of_mem member, .inr stops⟩
  · cases impossible

/-- The files of a program are the paths that were found, apart from those that are no TypeScript,
in the same order. -/
theorem map_path_of_assemble (found : discover store config = .ok paths)
    (same : sources.map (·.1) = paths)
    (assembled : assemble grammar root basePackage sources = .ok program) :
    program.files.map (·.path) = paths.filter fun path => (ofPath? path).isSome := by
  have sorted : sources.Pairwise fun left right => left.1.notAfter right.1 := by
    obtain ⟨_, _, _, _, paths_eq⟩ := Discovery.discover_eq_ok found
    have ordered : paths.Pairwise fun left right => left.notAfter right := by
      rw [paths_eq, Path.sortedSet]
      apply pairwise_mergeSort
      · exact fun _ _ _ before behind => Path.notAfter_trans before behind
      · exact fun left right => Path.notAfter_total left right
    rw [← same, pairwise_map] at ordered
    exact ordered
  have files := congrArg (List.map fun item : Path × String => item.1) (files_of_assemble assembled)
  rw [inOrder, mergeSort_of_pairwise sorted, map_map] at files
  rw [← same, filter_map]
  exact files

theorem kind_of_assemble (assembled : assemble grammar root basePackage sources = .ok program) :
    ∀ file ∈ program.files, ofPath? file.path = some file.kind := by
  refine assemble_induction (fun files => ∀ file ∈ files,
    ofPath? file.path = some file.kind) (by simp) ?_ assembled
  intro files added path source before run
  rcases addSource_eq_ok run with ⟨_, rfl⟩ | ⟨kind, relative, tree, isKind, _, _, _, rfl⟩
  · exact before
  · exact forall_mem_append.mpr ⟨before, forall_mem_singleton.mpr isKind⟩

theorem lowered_eq_nil_iff : program.lowered = [] ↔ ∀ file ∈ program.files, file.kind =
    .declaration := by
  rw [← map_eq_nil_iff (f := fun entry : Nat × SourceFile => entry.2.address), map_address_lowered,
    addresses, map_eq_nil_iff, filter_eq_nil_iff]
  simp [SourceFile.isLowered]

/-- A program that was loaded has exactly the TypeScript files that were found. It has no module to
make if none of these is more than a declaration. That nothing is there to work on is reported if
all files that were found are declarations, and then as after any other error nothing is written. -/
theorem loaded_files_are_found (grammar : Grammar) (store : Files.Store) (configPath : Path)
    (basePackage : String) :
    (∀ program, load grammar store configPath basePackage = .ok program → ∃ config paths,
      Config.load store configPath = .ok config ∧ discover store config = .ok paths ∧
      (program.files.map (·.path) = paths.filter fun path => (ofPath? path).isSome) ∧
      (program.lowered = [] ↔ ∀ path ∈ paths, ofPath? path ∈ [none, some .declaration])) ∧
    (∀ config paths, Config.load store configPath = .ok config →
      discover store config = .ok paths →
      (load grammar store configPath basePackage = .error (.noInputs config.path) ↔
        ∀ path ∈ paths, ofPath? path = some .declaration)) ∧
    ∀ setting : Command.Setting, setting.arguments.project = configPath →
      setting.arguments.basePackage = basePackage →
      (∀ program, load grammar store configPath basePackage ≠ .ok program) →
        (Command.runWith grammar setting store).2 = store := by
  refine ⟨fun program done => ?_, fun config paths loaded found =>
    ⟨fun fails => ?_, fun each => ?_⟩, ?_⟩
  · obtain ⟨config, paths, sources, other, loaded, found, _, same, assembled, rfl⟩ :=
      load_eq_ok done
    have files := map_path_of_assemble found same assembled
    refine ⟨config, paths, loaded, found, files, ?_⟩
    have kinds := kind_of_assemble assembled
    refine lowered_eq_nil_iff.trans ⟨fun each path member => ?_, fun each file member => ?_⟩
    · cases isKind : ofPath? path with
      | none => exact .head _
      | some kind =>
        have among : path ∈ other.files.map (·.path) :=
          files ▸ mem_filter.mpr ⟨member, by simp [isKind]⟩
        obtain ⟨file, listed, rfl⟩ := mem_map.mp among
        rw [← isKind, kinds file listed, each file listed]
        exact .tail _ (.head _)
    · have among : file.path ∈ paths :=
        (mem_filter.mp (files ▸ mem_map_of_mem (f := SourceFile.path) member)).1
      simpa [kinds file member] using each file.path among
  · by_contra other
    have some : paths.any isInput := by simpa [isInput] using other
    obtain ⟨path, _, ⟨_, impossible⟩ | impossible⟩ := stops_of_load loaded found some fails
    · cases impossible
    · cases impossible
  · rw [load_eq loaded found, if_neg (by simpa [isInput] using each)]
  · rintro setting rfl rfl fails
    rw [Command.runWith]
    split
    · rfl
    · rename_i program done
      exact absurd done (fails program)

namespace Sample

/-- A project that only lists a file of data. -/
def data : Files.Store where
  workingDirectory := ⟨"/p"⟩
  entries := [(["p"], .directory), (["p", "data.json"], .file (.text "")),
    (["p", "tsconfig.json"], .file (.text "\x7b\"files\": [\"data.json\"]\x7d"))]

end Sample

/-- A listed file of data counts as something to work on, although nothing is made of it. -/
theorem data_is_loaded_as_nothing : ∃ program,
    load (fun _ _ => none) Sample.data ⟨"tsconfig.json"⟩ "" = .ok program ∧ program.lowered =
      [] := by
  have loads : (load (fun _ _ => none) Sample.data ⟨"tsconfig.json"⟩ "").toOption.any
      (·.files.isEmpty) := by decide +kernel
  cases done : load (fun _ _ => none) Sample.data ⟨"tsconfig.json"⟩ "" with
  | error reason =>
    rw [done] at loads
    cases loads
  | ok program =>
    rw [done] at loads
    refine ⟨program, rfl, lowered_eq_nil_iff.mpr ?_⟩
    have none : program.files = [] := by simpa [Except.toOption] using loads
    simp [none]

end Program

end Haxify
