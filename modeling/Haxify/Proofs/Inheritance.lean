import Haxify.Config.Chain
import Haxify.Proofs.SourceOrder
import Haxify.Proofs.Following
import Mathlib.Logic.Relation

/-!
# What a configuration inherits

Configurations that name each other as bases form a graph. Where every configuration that can be
reached is readable and finds its bases, reading stops with an error exactly when one of them
builds on itself; a base that is shared by several is no such case. Otherwise each field has the
value that the configuration sets, or else the one of the last base that has any.

The reader keeps the files that it is not reading already. Two facts carry the proofs: every
configuration that can be read is one of the paths it starts with, and a path that is missing
later on is one that the current configuration was reached from.
-/

namespace Haxify

open List

variable {text : String} {reason : ProjectError}

namespace Files.Store

variable {store : Store} {place : Place} {path : Path}

theorem through_of_followAll {found : Place} {pieces : List String}
    (follows : store.followAll place pieces = .ok found) : found = through place pieces := by
  induction pieces generalizing place with
  | nil =>
    cases follows
    rfl
  | cons piece rest rest_through =>
    obtain ⟨next, step, behind⟩ := Program.bind_eq_ok.mp follows
    have led : next = advance place piece := by
      rw [follow] at step
      split at step
      · cases step
      · cases step
      · cases step
        rfl
    rw [rest_through behind, led]
    rfl

theorem exists_file_of_readText (reads : store.readText path = .ok text) :
    ∃ place contents, store.place path = .ok place ∧
      store.entry? place = some (.file contents) := by
  obtain ⟨contents, read, _⟩ := Program.bind_eq_ok.mp reads
  obtain ⟨entry, found, isFile⟩ := Program.bind_eq_ok.mp read
  obtain ⟨place, leads, stands⟩ := Program.bind_eq_ok.mp found
  cases entry with
  | directory => cases isFile
  | file held =>
    refine ⟨place, held, leads, ?_⟩
    cases there : store.entry? place with
    | none =>
      rw [there] at stands
      cases stands
    | some entry =>
      rw [there] at stands
      cases stands
      rfl

theorem mem_filesBelow {contents : Contents} (file : store.entry? place = some (.file contents)) :
    (place, contents) ∈ store.filesBelow [] := by
  have below : place ≠ [] := by
    rintro rfl
    cases file
  rw [entry?_of_ne_nil store below] at file
  obtain ⟨before, after, split, _⟩ := lookup_eq_some_iff.mp file
  rw [filesBelow, mem_filterMap]
  refine ⟨(place, .file contents), by simp [split], ?_⟩
  simp [length_pos_of_ne_nil below]

theorem through_filter (place : Place) (pieces : List String) :
    through place pieces = through place (pieces.filter fun piece => !Path.isFiller piece) := by
  induction pieces generalizing place with
  | nil => rfl
  | cons piece rest rest_through =>
    by_cases fills : Path.isFiller piece
    · have stays : advance place piece = place := by rw [advance, if_pos fills]
      rw [filter_cons_of_neg (by simp [fills]), through, foldl_cons, stays]
      exact rest_through place
    · rw [filter_cons_of_pos (by simp [fills])]
      exact rest_through _

theorem through_plain {names : List String} (plain : ∀ name ∈ names, Path.Plain name) :
    through [] names = names := by
  refine (through_names (fun dots => (plain ".." dots).ne_parent rfl) ?_ []).trans rfl
  intro name member
  simp [Path.isFiller, (plain name member).ne_empty, (plain name member).ne_current]

theorem aim_of_place (leads : store.place path = .ok place) : place = store.aim path := by
  rw [Store.place] at leads
  split at leads
  · cases leads
  · rw [through_of_followAll leads, through_filter]
    exact congrArg (through []) (Path.steps_join _ _)

end Files.Store

namespace Config

open Program (bind_eq_ok bind_eq_error exists_of_foldlM_eq_error)
open Files (Store)

variable {store : Store} {unread : List Path} {path reached : Path} {resolved : Resolved}
variable {specifier : String} {start : Path}

open Relation (ReflTransGen TransGen)

theorem mem_filePaths {written : Path} (rooted : store.workingDirectory.isAbsolute)
    (reads : store.readText (absolute store written) = .ok text) :
    absolute store written ∈ filePaths store := by
  have start : (store.workingDirectory.join written).isAbsolute := by
    rw [Path.isAbsolute_join, rooted, Bool.or_true]
  obtain ⟨names, plain, found⟩ := Path.names_of_isAbsolute start
  obtain ⟨place, contents, leads, file⟩ := Store.exists_file_of_readText reads
  have whole : (absolute store written).components =
      (store.workingDirectory.join written).course.reverse := Path.components_normalize _
  have spelled : absolute store written =
      .ofComponents (store.workingDirectory.join written).course.reverse := rfl
  have isAbsolute : (absolute store written).isAbsolute := (Path.isAbsolute_normalize _).trans start
  have texts : (names.map Path.Component.name).map Path.Component.text = names := by
    rw [map_map]
    exact map_id names
  have down : Store.through [] names = names := Store.through_plain plain
  have here : place = names := by
    rw [Store.aim_of_place leads, Store.aim, Store.origin, if_pos isAbsolute,
      nil_append, Path.steps_of_isAbsolute isAbsolute, whole]
    rcases found with found | found
    · rw [found, drop_one, tail_cons, texts, down]
    · rw [found, drop_one, tail_cons, map_cons, texts]
      exact down
  rw [filePaths, mem_flatMap]
  refine ⟨(names, contents), Store.mem_filesBelow (here ▸ file), ?_⟩
  rcases found with found | found
  · exact mem_cons.mpr (.inl (spelled.trans (congrArg _ found)))
  · exact mem_cons.mpr (.inr (mem_singleton.mpr (spelled.trans (congrArg _ found))))

/-- The specifiers of the bases that settings name, in order. -/
def Settings.bases (settings : Settings) : List String :=
  (settings.extends?.map Extends.specifiers).getD []

def NamesBase (store : Store) (path : Path) (specifier : String) (base : Path) : Prop :=
  ∃ found, locateBase store path specifier = .ok found ∧ base = absolute store found

/-- The first configuration names the second one as a base. -/
def BuildsOn (store : Store) (path base : Path) : Prop :=
  ∃ settings specifier, settingsAt store path = .ok settings ∧ specifier ∈ settings.bases ∧
    NamesBase store path specifier base

/-- A configuration can be read and every base it names is there. -/
def Complete (store : Store) (path : Path) : Prop :=
  ∃ settings, settingsAt store path = .ok settings ∧
    ∀ specifier ∈ settings.bases, ∃ base, NamesBase store path specifier base

/-- What reading the base of a specifier gives while a configuration is being read. -/
def readBase (store : Store) (unread : List Path) (path : Path) (specifier : String) :
    Except ProjectError Resolved := do
  resolveAmong store (unread.erase path) (absolute store (← locateBase store path specifier))

theorem resolveAmong_eq (store : Store) (unread : List Path) (path : Path) :
    resolveAmong store unread path = (do
      let settings ← settingsAt store path
      if unread.contains path then
        let inherited ← settings.bases.foldlM
          (fun resolved specifier => return resolved.over (← readBase store unread path specifier))
          (Resolved.empty path)
        return inherited.over (settings.resolved path)
      else throw (.circularExtends path)) := by
  rw [resolveAmong]
  simp only [readBase, bind_assoc]
  rfl

section Bases

variable {read : String → Except ProjectError Resolved} {specifiers : List String}
variable {start : Resolved}

theorem foldlM_over_eq_ok {result : Resolved} :
    specifiers.foldlM (fun resolved specifier => return resolved.over (← read specifier)) start =
        .ok result ↔
      ∃ bases : List Resolved, specifiers.map read = bases.map .ok ∧
        result = bases.foldl Resolved.over start := by
  induction specifiers generalizing start with
  | nil =>
    constructor
    · intro done
      cases done
      exact ⟨[], rfl, rfl⟩
    · rintro ⟨bases, none, rfl⟩
      obtain rfl := map_eq_nil_iff.mp none.symm
      rfl
  | cons specifier rest rest_over =>
    rw [foldlM_cons, bind_eq_ok]
    constructor
    · rintro ⟨middle, first, behind⟩
      obtain ⟨base, readable, taken⟩ := bind_eq_ok.mp first
      cases taken
      obtain ⟨bases, others, rfl⟩ := rest_over.mp behind
      exact ⟨base :: bases, by rw [map_cons, map_cons, readable, others], rfl⟩
    · rintro ⟨all, listed, rfl⟩
      obtain ⟨base, bases, rfl, readable, others⟩ := map_eq_cons_iff.mp listed.symm
      refine ⟨start.over base, ?_, rest_over.mpr ⟨bases, others.symm, rfl⟩⟩
      rw [← readable]
      rfl

theorem exists_map_read_eq (all : ∀ specifier ∈ specifiers, ∃ base, read specifier = .ok base) :
    ∃ bases : List Resolved, specifiers.map read = bases.map .ok := by
  induction specifiers with
  | nil => exact ⟨[], rfl⟩
  | cons specifier rest rest_read =>
    obtain ⟨base, first⟩ := all specifier (.head _)
    obtain ⟨bases, others⟩ := rest_read fun other written => all other (.tail _ written)
    exact ⟨base :: bases, by rw [map_cons, map_cons, first, others]⟩

end Bases

/-- When a configuration is read: it is readable and not being read already, its bases are read,
and they are taken over in order before what it says itself. -/
theorem resolveAmong_eq_ok :
    resolveAmong store unread path = .ok resolved ↔
      ∃ (settings : Settings) (bases : List Resolved),
        settingsAt store path = .ok settings ∧ path ∈ unread ∧
        settings.bases.map (readBase store unread path) = bases.map .ok ∧
        resolved = (bases.foldl Resolved.over (.empty path)).over (settings.resolved path) := by
  rw [resolveAmong_eq, bind_eq_ok]
  constructor
  · rintro ⟨settings, readable, behind⟩
    split at behind
    · rename_i member
      obtain ⟨inherited, folded, taken⟩ := bind_eq_ok.mp behind
      cases taken
      obtain ⟨bases, all, rfl⟩ := foldlM_over_eq_ok.mp folded
      exact ⟨settings, bases, readable, contains_iff_mem.mp member, all, rfl⟩
    · cases behind
  · rintro ⟨settings, bases, readable, member, all, rfl⟩
    refine ⟨settings, readable, ?_⟩
    rw [if_pos (contains_iff_mem.mpr member), foldlM_over_eq_ok.mpr ⟨bases, all, rfl⟩]
    rfl

theorem resolveAmong_eq_error {settings : Settings}
    (readable : settingsAt store path = .ok settings)
    (fails : resolveAmong store unread path = .error reason) :
    (path ∉ unread ∧ reason = .circularExtends path) ∨
      (path ∈ unread ∧ ∃ specifier ∈ settings.bases,
        readBase store unread path specifier = .error reason) := by
  rw [resolveAmong_eq, readable] at fails
  by_cases member : path ∈ unread
  · refine .inr ⟨member, ?_⟩
    change (if unread.contains path then _ else _) = _ at fails
    rw [if_pos (contains_iff_mem.mpr member)] at fails
    rcases bind_eq_error.mp fails with folded | ⟨_, _, impossible⟩
    · obtain ⟨specifier, listed, _, step⟩ := exists_of_foldlM_eq_error folded
      rcases bind_eq_error.mp step with unread | ⟨_, _, impossible⟩
      · exact ⟨specifier, listed, unread⟩
      · cases impossible
    · cases impossible
  · refine .inl ⟨member, ?_⟩
    change (if unread.contains path then _ else _) = _ at fails
    rw [if_neg fun listed => member (contains_iff_mem.mp listed)] at fails
    cases fails
    rfl

theorem length_erase_lt (member : path ∈ unread) : (unread.erase path).length < unread.length := by
  have := length_erase_of_mem member
  have := length_pos_of_mem member
  omega

theorem readBase_of_namesBase {base : Path} (names : NamesBase store path specifier base) :
    readBase store unread path specifier = resolveAmong store (unread.erase path) base := by
  obtain ⟨found, located, same⟩ := names
  rw [readBase, located, same]
  rfl

theorem namesBase_of_readBase (readable : readBase store unread path specifier = .ok resolved) :
    ∃ base, NamesBase store path specifier base ∧
      resolveAmong store (unread.erase path) base = .ok resolved := by
  obtain ⟨found, located, behind⟩ := bind_eq_ok.mp readable
  exact ⟨_, ⟨found, located, rfl⟩, behind⟩

theorem NamesBase.unique {base other : Path} (first : NamesBase store path specifier base)
    (second : NamesBase store path specifier other) : base = other := by
  obtain ⟨found, located, same⟩ := first
  obtain ⟨again, relocated, alike⟩ := second
  rw [located] at relocated
  cases relocated
  rw [same, alike]

/-! ### Cycles -/

theorem not_transGen_of_acc (ends : Acc (fun base path => BuildsOn store path base) path) :
    ¬TransGen (BuildsOn store) path path := by
  induction ends with
  | intro path _ below_ends =>
    intro around
    obtain ⟨base, step, back⟩ := TransGen.head'_iff.mp around
    exact below_ends base step (TransGen.tail' back step)

theorem acc_of_reflTransGen (ends : Acc (fun base path => BuildsOn store path base) path)
    (reaches : ReflTransGen (BuildsOn store) path reached) :
    Acc (fun base path => BuildsOn store path base) reached := by
  induction reaches with
  | refl => exact ends
  | tail _ step middle_ends => exact middle_ends.inv step

theorem acc_of_resolveAmong_eq_ok (done : resolveAmong store unread path = .ok resolved) :
    Acc (fun base path => BuildsOn store path base) path := by
  -- Every base is read with one path less.
  induction size : unread.length using Nat.strong_induction_on
    generalizing unread path resolved with
  | _ size shorter =>
    obtain ⟨settings, bases, readable, member, all, _⟩ := resolveAmong_eq_ok.mp done
    constructor
    rintro base ⟨again, specifier, reread, listed, names⟩
    rw [readable] at reread
    cases reread
    obtain ⟨baseResolved, _, read⟩ := mem_map.mp (all ▸ mem_map_of_mem listed)
    rw [readBase_of_namesBase names] at read
    exact shorter _ (size ▸ length_erase_lt member) read.symm rfl

variable (complete : ∀ reached, ReflTransGen (BuildsOn store) path reached → Complete store reached)
include complete

/-- Where all that a configuration reaches is complete and still to be read and nothing builds on
itself, the configuration is read. -/
theorem exists_resolveAmong_eq_ok
    (listed : ∀ reached, ReflTransGen (BuildsOn store) path reached → reached ∈ unread)
    (acyclic : ∀ reached, ReflTransGen (BuildsOn store) path reached →
      ¬TransGen (BuildsOn store) reached reached) :
    ∃ resolved, resolveAmong store unread path = .ok resolved := by
  induction size : unread.length using Nat.strong_induction_on generalizing unread path with
  | _ size shorter =>
    obtain ⟨settings, readable, located⟩ := complete path .refl
    have member := listed path .refl
    have all : ∀ specifier ∈ settings.bases,
        ∃ base, readBase store unread path specifier = .ok base := by
      intro specifier written
      obtain ⟨base, names⟩ := located specifier written
      have step : BuildsOn store path base := ⟨settings, specifier, readable, written, names⟩
      rw [readBase_of_namesBase names]
      refine shorter _ (size ▸ length_erase_lt member)
        (fun reached way => complete reached (.head step way)) ?_
        (fun reached way => acyclic reached (.head step way)) rfl
      -- What the base reaches is not the configuration itself, which would be a cycle.
      intro reached way
      have other : reached ≠ path := by
        rintro rfl
        exact acyclic reached .refl (TransGen.head' step way)
      exact (mem_erase_of_ne other).mpr (listed reached (.head step way))
    obtain ⟨bases, read⟩ := exists_map_read_eq all
    exact ⟨_, resolveAmong_eq_ok.mpr ⟨settings, bases, readable, member, read, rfl⟩⟩

/-- A complete configuration that is not read builds on one that builds on itself, and that one
is named. -/
theorem cycle_of_resolveAmong_eq_error
    (held : ∀ reached, ReflTransGen (BuildsOn store) path reached → reached ∉ unread →
      TransGen (BuildsOn store) reached path)
    (fails : resolveAmong store unread path = .error reason) :
    ∃ reached, reason = .circularExtends reached ∧
      ReflTransGen (BuildsOn store) path reached ∧ TransGen (BuildsOn store) reached reached := by
  induction size : unread.length using Nat.strong_induction_on generalizing unread path with
  | _ size shorter =>
    obtain ⟨settings, readable, located⟩ := complete path .refl
    rcases resolveAmong_eq_error readable fails with
      ⟨missing, rfl⟩ | ⟨member, specifier, written, failed⟩
    · exact ⟨path, rfl, .refl, held path .refl missing⟩
    · obtain ⟨base, names⟩ := located specifier written
      have step : BuildsOn store path base := ⟨settings, specifier, readable, written, names⟩
      rw [readBase_of_namesBase names] at failed
      obtain ⟨reached, named, way, around⟩ := shorter _ (size ▸ length_erase_lt member)
        (fun reached way => complete reached (.head step way)) (by
          intro reached way missing
          by_cases same : reached = path
          · rw [same]
            exact .single step
          · rw [mem_erase_of_ne same] at missing
            exact (held reached (.head step way) missing).tail step) failed rfl
      exact ⟨reached, named, .head step way, around⟩

omit complete

/-! ### Values -/

/-- One of the values of a configuration that a base can set: what is read for it, and what the
settings of one file say. -/
structure Field (α : Type) where
  value : Resolved → Option α
  own : Settings → Path → Option α
  value_empty (path : Path) : value (.empty path) = none
  value_over (resolved base : Resolved) :
    value (resolved.over base) = (value base).or (value resolved)
  /-- The settings are seen from the directory of their file. -/
  value_resolved (settings : Settings) (path : Path) :
    value (settings.resolved path) = own settings path

namespace Field

/-- Files by name, with the directory of the configuration that lists them. -/
def files : Field PatternSet where
  value := Resolved.files
  own settings path := settings.files.map fun patterns => ⟨path.directory, patterns⟩
  value_empty _ := rfl
  value_over _ _ := rfl
  value_resolved _ _ := rfl

/-- Files to take, with the directory of the configuration that lists them. -/
def include? : Field PatternSet where
  value := Resolved.include?
  own settings path := settings.include?.map fun patterns => ⟨path.directory, patterns⟩
  value_empty _ := rfl
  value_over _ _ := rfl
  value_resolved _ _ := rfl

/-- Files to leave out, with the directory of the configuration that lists them. -/
def exclude : Field PatternSet where
  value := Resolved.exclude
  own settings path := settings.exclude.map fun patterns => ⟨path.directory, patterns⟩
  value_empty _ := rfl
  value_over _ _ := rfl
  value_resolved _ _ := rfl

/-- The root directory, normalized from the directory of the configuration that sets it. -/
def rootDir : Field Path where
  value := Resolved.rootDir
  own settings path :=
    settings.options.rootDir.map fun text => (path.directory.join ⟨text⟩).normalize
  value_empty _ := rfl
  value_over _ _ := rfl
  value_resolved _ _ := rfl

/-- The output directory, normalized from the directory of the configuration that sets it. -/
def outDir : Field Path where
  value := Resolved.outDir
  own settings path :=
    settings.options.outDir.map fun text => (path.directory.join ⟨text⟩).normalize
  value_empty _ := rfl
  value_over _ _ := rfl
  value_resolved _ _ := rfl

/-- How JSX would be compiled. -/
def jsx : Field String where
  value := Resolved.jsx
  own settings _ := settings.options.jsx
  value_empty _ := rfl
  value_over _ _ := rfl
  value_resolved _ _ := rfl

end Field

/-- The value that a field has for the configuration at a path: the one it sets itself, or else
that of the last base in its list that has one. -/
inductive Inherits {α : Type} (store : Store) (field : Field α) : Path → Option α → Prop
  | own {path : Path} {settings : Settings} {value : α}
      (readable : settingsAt store path = .ok settings)
      (set : field.own settings path = some value) : Inherits store field path (some value)
  | base {path : Path} {settings : Settings} {value : α} {before after : List String}
      {specifier : String} {base : Path}
      (readable : settingsAt store path = .ok settings)
      (unset : field.own settings path = none)
      (listed : settings.bases = before ++ specifier :: after)
      (names : NamesBase store path specifier base)
      (has : Inherits store field base (some value))
      (last : ∀ later ∈ after, ∀ other, NamesBase store path later other →
        Inherits store field other none) : Inherits store field path (some value)
  /-- Neither the configuration nor any base has a value. -/
  | unset {path : Path} {settings : Settings}
      (readable : settingsAt store path = .ok settings)
      (unset : field.own settings path = none)
      (without : ∀ specifier ∈ settings.bases, ∀ base, NamesBase store path specifier base →
        Inherits store field base none) : Inherits store field path none

theorem value_foldl_over {α : Type} (field : Field α) (bases : List Resolved) (start : Resolved) :
    field.value (bases.foldl Resolved.over start) =
      (bases.reverse.findSome? field.value).or (field.value start) := by
  induction bases generalizing start with
  | nil => rfl
  | cons base rest rest_value =>
    rw [foldl_cons, rest_value, field.value_over, reverse_cons, findSome?_append, Option.or_assoc]
    simp

theorem path_foldl_over (bases : List Resolved) (start : Resolved) :
    (bases.foldl Resolved.over start).path = start.path ∧
      (bases.foldl Resolved.over start).directory = start.directory := by
  induction bases generalizing start with
  | nil => exact ⟨rfl, rfl⟩
  | cons base rest rest_stays => exact rest_stays (start.over base)

theorem path_of_resolveAmong_eq_ok (done : resolveAmong store unread path = .ok resolved) :
    resolved.path = path ∧ resolved.directory = path.directory := by
  obtain ⟨settings, bases, _, _, _, rfl⟩ := resolveAmong_eq_ok.mp done
  exact path_foldl_over bases (.empty path)

theorem inherits_of_resolveAmong_eq_ok {α : Type} (field : Field α)
    (done : resolveAmong store unread path = .ok resolved) :
    Inherits store field path (field.value resolved) := by
  induction size : unread.length using Nat.strong_induction_on
    generalizing unread path resolved with
  | _ size shorter =>
    obtain ⟨settings, bases, readable, member, all, rfl⟩ := resolveAmong_eq_ok.mp done
    have inherits {specifier : String} {base : Path} {read : Resolved}
        (reads : readBase store unread path specifier = .ok read)
        (names : NamesBase store path specifier base) :
        Inherits store field base (field.value read) := by
      rw [readBase_of_namesBase names] at reads
      exact shorter _ (size ▸ length_erase_lt member) reads rfl
    have without {specifiers : List String} {read : List Resolved}
        (reads : specifiers.map (readBase store unread path) = read.map .ok)
        (none : ∀ base ∈ read, field.value base = none) (specifier : String)
        (listed : specifier ∈ specifiers) (base : Path)
        (names : NamesBase store path specifier base) :
        Inherits store field base .none := by
      obtain ⟨found, among, same⟩ := mem_map.mp (reads ▸ mem_map_of_mem listed)
      rw [← none found among]
      exact inherits same.symm names
    rw [field.value_over, field.value_resolved, value_foldl_over, field.value_empty, Option.or_none]
    cases set : field.own settings path with
    | some value => exact .own readable set
    | none =>
      rw [Option.none_or]
      cases found : bases.reverse.findSome? field.value with
      | none =>
        have empty := findSome?_eq_none_iff.mp found
        exact .unset readable set (without all fun base among => empty base (mem_reverse.mpr among))
      | some value =>
        -- The first base from behind that has a value divides the list of bases.
        obtain ⟨behind, base, before, cut, has, none⟩ := findSome?_eq_some_iff.mp found
        have order : bases = before.reverse ++ base :: behind.reverse := by
          rw [← reverse_reverse bases, cut]
          simp
        rw [order, map_append, map_cons] at all
        obtain ⟨earlier, others, listed, _, tail⟩ := map_eq_append_iff.mp all
        obtain ⟨specifier, later, rfl, reads, last⟩ := map_eq_cons_iff.mp tail
        obtain ⟨basePath, names, _⟩ := namesBase_of_readBase reads
        exact .base readable set listed names (has ▸ inherits reads names)
          (without last fun other among => none other (mem_reverse.mp among))

theorem exists_absolute_of_reaches
    (reaches : ReflTransGen (BuildsOn store) (absolute store start) reached) :
    ∃ written, reached = absolute store written := by
  cases reaches with
  | refl => exact ⟨start, rfl⟩
  | tail _ step =>
    obtain ⟨_, _, _, _, found, _, same⟩ := step
    exact ⟨found, same⟩

theorem mem_filePaths_of_reaches (rooted : store.workingDirectory.isAbsolute)
    (complete : Complete store reached)
    (reaches : ReflTransGen (BuildsOn store) (absolute store start) reached) :
    reached ∈ filePaths store := by
  obtain ⟨settings, readable, _⟩ := complete
  obtain ⟨written, same⟩ := exists_absolute_of_reaches reaches
  rw [same] at readable ⊢
  cases read : store.readText (absolute store written) with
  | error failure =>
    rw [settingsAt, read] at readable
    cases readable
  | ok text => exact mem_filePaths rooted read

/-- Where every configuration that is reached can be read and finds its bases, loading names a
configuration in a circle exactly when one that is reached builds on itself, and the one named is
such a one. Otherwise it succeeds with the values that the configuration inherits, whether bases
are shared or not. -/
theorem load_iff_acyclic {store : Store} {start : Path}
    (rooted : store.workingDirectory.isAbsolute)
    (complete : ∀ reached, ReflTransGen (BuildsOn store) (absolute store start) reached →
      Complete store reached) :
    (∀ reached, load store start = .error (.circularExtends reached) →
        ReflTransGen (BuildsOn store) (absolute store start) reached ∧
          TransGen (BuildsOn store) reached reached) ∧
      ((∃ reached, load store start = .error (.circularExtends reached)) ↔
        ∃ reached, ReflTransGen (BuildsOn store) (absolute store start) reached ∧
          TransGen (BuildsOn store) reached reached) ∧
      ((∃ resolved, load store start = .ok resolved) ↔
        ∀ reached, ReflTransGen (BuildsOn store) (absolute store start) reached →
          ¬TransGen (BuildsOn store) reached reached) ∧
      ∀ resolved, load store start = .ok resolved →
        resolved.path = absolute store start ∧
        resolved.directory = (absolute store start).directory ∧
        Inherits store .files (absolute store start) resolved.files ∧
        Inherits store .include? (absolute store start) resolved.include? ∧
        Inherits store .exclude (absolute store start) resolved.exclude ∧
        Inherits store .rootDir (absolute store start) resolved.rootDir ∧
        Inherits store .outDir (absolute store start) resolved.outDir ∧
        Inherits store .jsx (absolute store start) resolved.jsx := by
  have listed : ∀ reached, ReflTransGen (BuildsOn store) (absolute store start) reached →
      reached ∈ filePaths store :=
    fun reached way => mem_filePaths_of_reaches rooted (complete reached way) way
  have fails {reason : ProjectError} (failed : load store start = .error reason) :=
    cycle_of_resolveAmong_eq_error complete
      (fun reached way missing => absurd (listed reached way) missing) failed
  have succeeds {resolved : Resolved} (done : load store start = .ok resolved) (reached : Path)
      (way : ReflTransGen (BuildsOn store) (absolute store start) reached) :
      ¬TransGen (BuildsOn store) reached reached :=
    not_transGen_of_acc (acc_of_reflTransGen (acc_of_resolveAmong_eq_ok done) way)
  have named : ∀ reached, load store start = .error (.circularExtends reached) →
      ReflTransGen (BuildsOn store) (absolute store start) reached ∧
        TransGen (BuildsOn store) reached reached := by
    intro reached failed
    obtain ⟨other, same, way, around⟩ := fails failed
    cases same
    exact ⟨way, around⟩
  refine ⟨named, ⟨?_, ?_⟩, ⟨?_, ?_⟩, ?_⟩
  · rintro ⟨reached, failed⟩
    exact ⟨reached, named reached failed⟩
  · rintro ⟨reached, way, around⟩
    cases outcome : load store start with
    | ok resolved => exact absurd around (succeeds outcome reached way)
    | error reason =>
      obtain ⟨other, rfl, _⟩ := fails outcome
      exact ⟨other, rfl⟩
  · rintro ⟨resolved, done⟩
    exact succeeds done
  · exact exists_resolveAmong_eq_ok complete listed
  · intro resolved done
    obtain ⟨path, directory⟩ := path_of_resolveAmong_eq_ok done
    exact ⟨path, directory, inherits_of_resolveAmong_eq_ok .files done,
      inherits_of_resolveAmong_eq_ok .include? done, inherits_of_resolveAmong_eq_ok .exclude done,
      inherits_of_resolveAmong_eq_ok .rootDir done, inherits_of_resolveAmong_eq_ok .outDir done,
      inherits_of_resolveAmong_eq_ok .jsx done⟩

/-- Whether the configurations at some paths can be read and have all their bases among them. -/
def isClosed (store : Store) (paths : List Path) : Bool :=
  paths.all fun path =>
    match settingsAt store path with
    | .error _ => false
    | .ok settings => settings.bases.all fun specifier =>
      match locateBase store path specifier with
      | .error _ => false
      | .ok found => paths.contains (absolute store found)

theorem complete_of_isClosed {paths : List Path} (closed : isClosed store paths)
    (member : start ∈ paths) (reaches : ReflTransGen (BuildsOn store) start reached) :
    Complete store reached := by
  have each (path : Path) (listed : path ∈ paths) : ∃ settings,
      settingsAt store path = .ok settings ∧ ∀ specifier ∈ settings.bases,
        ∃ base ∈ paths, NamesBase store path specifier base := by
    have here := all_eq_true.mp closed path listed
    split at here
    · cases here
    rename_i settings readable
    refine ⟨settings, readable, fun specifier written => ?_⟩
    have there := all_eq_true.mp here specifier written
    split at there
    · cases there
    · rename_i found located
      exact ⟨_, contains_iff_mem.mp there, found, located, rfl⟩
  have among : reached ∈ paths := by
    induction reaches with
    | refl => exact member
    | @tail middle base _ step listed =>
      obtain ⟨again, specifier, reread, written, names⟩ := step
      obtain ⟨settings, readable, located⟩ := each middle listed
      rw [readable] at reread
      cases reread
      obtain ⟨other, known, stands⟩ := located specifier written
      exact names.unique stands ▸ known
  obtain ⟨settings, readable, located⟩ := each reached among
  refine ⟨settings, readable, fun specifier written => ?_⟩
  obtain ⟨base, _, names⟩ := located specifier written
  exact ⟨base, names⟩

namespace Sample

def diamond : Store where
  workingDirectory := ⟨"/p"⟩
  entries :=
    [(["p"], .directory), (["p", "lib"], .directory),
     (["p", "tsconfig.json"],
       .file (.text "\x7b\"extends\": [\"./left\", \"./right\"], \"exclude\": [\"out\"]\x7d")),
     (["p", "left.json"],
       .file (.text "\x7b\"extends\": \"./lib/base.json\", \"include\": [\"left\"]\x7d")),
     (["p", "right.json"], .file (.text "\x7b\"extends\": \"./lib/base.json\"\x7d")),
     (["p", "lib", "base.json"], .file (.text
       "\x7b\"include\": [\"src\"], \"compilerOptions\": \x7b\"rootDir\": \"..\"\x7d\x7d"))]

def corners : List Path :=
  [⟨"/p/tsconfig.json"⟩, ⟨"/p/left.json"⟩, ⟨"/p/right.json"⟩, ⟨"/p/lib/base.json"⟩]

end Sample

open Sample

/-- A shared base is no circle, and the base on the right wins although it only passes on what the
shared one says. -/
theorem diamond_loads :
    isClosed diamond corners ∧
      load diamond ⟨"tsconfig.json"⟩ = .ok
        { path := ⟨"/p/tsconfig.json"⟩
          directory := ⟨"/p"⟩
          files := none
          include? := some ⟨⟨"/p/lib"⟩, ["src"]⟩
          exclude := some ⟨⟨"/p"⟩, ["out"]⟩
          rootDir := some ⟨"/p"⟩
          outDir := none
          jsx := none } ∧
      Inherits diamond .include? ⟨"/p/tsconfig.json"⟩ (some ⟨⟨"/p/lib"⟩, ["src"]⟩) ∧
      ¬TransGen (BuildsOn diamond) ⟨"/p/tsconfig.json"⟩ ⟨"/p/tsconfig.json"⟩ := by
  have closed : isClosed diamond corners := by decide +kernel
  have place : absolute diamond ⟨"tsconfig.json"⟩ = ⟨"/p/tsconfig.json"⟩ := by decide +kernel
  have member : absolute diamond ⟨"tsconfig.json"⟩ ∈ corners := by
    rw [place]
    exact .head _
  have done : load diamond ⟨"tsconfig.json"⟩ = .ok
      { path := ⟨"/p/tsconfig.json"⟩, directory := ⟨"/p"⟩, files := none,
        include? := some ⟨⟨"/p/lib"⟩, ["src"]⟩, exclude := some ⟨⟨"/p"⟩, ["out"]⟩,
        rootDir := some ⟨"/p"⟩, outDir := none, jsx := none } := by decide +kernel
  obtain ⟨_, _, acyclic, values⟩ := @load_iff_acyclic diamond ⟨"tsconfig.json"⟩ (by decide)
    fun _ way => complete_of_isClosed closed member way
  obtain ⟨_, _, _, taken, _⟩ := values _ done
  have around := acyclic.mp ⟨_, done⟩ _ .refl
  rw [place] at taken around
  exact ⟨closed, done, taken, around⟩

end Config

end Haxify
