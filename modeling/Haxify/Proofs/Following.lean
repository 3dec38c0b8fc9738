import Haxify.Files.Store
import Haxify.Proofs.PathSteps
import Mathlib.Data.List.Induction

/-!
# Following paths in a file store

The steps of a path lead to a place that is known from the text alone; the store decides only
whether they can be taken. A path is anchored if all its parents lead out of directories that
are there. Such a path leads to its place if the last directory on the way is there; if it is
not, a file on the way is told apart from a missing directory, behind which nothing can be.
-/

namespace Haxify.Files.Store

open List
open Haxify.Path (isFiller)

variable {directories : List String} {name : String}
variable {store other : Store} {place : Place} {pieces : List String} {front : Place}

theorem entry?_of_ne_nil (store : Store) (below : place ≠ []) :
    store.entry? place = store.entries.lookup place := if_neg below

theorem entry?_put (store : Store) (entry : Entry) (below : place ≠ []) (other : Place) :
    Store.entry? { store with entries := put place entry store.entries } other =
      if other = place then some entry else store.entry? other := by
  have lookup (entries : List (Place × Entry)) :
      (put place entry entries).lookup other =
        if other = place then some entry else entries.lookup other := by
    induction entries with
    | nil =>
      by_cases same : other = place
      · simp [put, same]
      · simp [put, same]
    | cons first rest rest_lookup =>
      obtain ⟨known, old⟩ := first
      rw [put]
      by_cases here : known = place
      · rw [if_pos here]
        by_cases same : other = place
        · simp [same]
        · simp only [lookup_cons, here, beq_eq_false_iff_ne.mpr same, if_neg same]
      · rw [if_neg here]
        by_cases found : other = known
        · simp [found, here]
        · simp only [lookup_cons, beq_eq_false_iff_ne.mpr found, rest_lookup]
  by_cases root : other = []
  · rw [root, if_neg (Ne.symm below)]
    rfl
  · rw [entry?_of_ne_nil _ root, entry?_of_ne_nil _ root, lookup]

theorem entry?_withoutBelow (store : Store) (below : place ≠ []) (other : Place) :
    Store.entry? { store with entries := withoutBelow place store.entries } other =
      if place <+: other then none else store.entry? other := by
  have lookup (entries : List (Place × Entry)) :
      (withoutBelow place entries).lookup other =
        if place <+: other then none else entries.lookup other := by
    induction entries with
    | nil => simp [withoutBelow]
    | cons first rest rest_lookup =>
      obtain ⟨known, old⟩ := first
      rw [withoutBelow] at rest_lookup ⊢
      by_cases inside : place <+: known
      · rw [filter_cons_of_neg (by simpa using inside), rest_lookup]
        by_cases within : place <+: other
        · rw [if_pos within, if_pos within]
        · have apart : other ≠ known := fun same => within (same ▸ inside)
          simp [lookup_cons, beq_eq_false_iff_ne.mpr apart]
      · have kept : place.isPrefixOf known = false := by
          rw [← Bool.not_eq_true, isPrefixOf_iff_prefix]
          exact inside
        rw [filter_cons_of_pos (by rw [kept]; rfl), lookup_cons, rest_lookup]
        by_cases same : other = known
        · simp [same, inside]
        · simp [lookup_cons, beq_eq_false_iff_ne.mpr same]
  by_cases root : other = []
  · have apart : ¬place <+: other := by
      rw [root, prefix_nil]
      exact below
    rw [if_neg apart, root]
    rfl
  · rw [entry?_of_ne_nil _ root, entry?_of_ne_nil _ root, lookup]

/-- Everything stands in a directory. -/
def IsTree (store : Store) : Prop :=
  ∀ place, (store.entry? place).isSome → store.hasDirectory place.dropLast

theorem hasDirectory_iff : store.hasDirectory place ↔ store.entry? place = some .directory := by
  rw [hasDirectory, beq_iff_eq]

theorem not_hasDirectory_of_none (missing : store.entry? place = none) :
    ¬store.hasDirectory place := by
  simp [hasDirectory_iff, missing]

theorem not_hasDirectory_of_file {contents : Contents}
    (file : store.entry? place = some (.file contents)) : ¬store.hasDirectory place := by
  simp [hasDirectory_iff, file]

theorem hasDirectory_root (store : Store) : store.hasDirectory [] := by
  rw [hasDirectory, entry?, if_pos rfl, beq_self_eq_true]

theorem isTree_of_entries (inside : ∀ entry ∈ store.entries, store.hasDirectory entry.1.dropLast) :
    store.IsTree := by
  intro place there
  by_cases root : place = []
  · rw [root]
    exact hasDirectory_root store
  · rw [entry?_of_ne_nil _ root] at there
    obtain ⟨entry, found⟩ := Option.isSome_iff_exists.mp there
    obtain ⟨before, behind, listed, _⟩ := lookup_eq_some_iff.mp found
    exact inside (place, entry) (by simp [listed])

theorem isSome_of_hasDirectory (directory : store.hasDirectory place) :
    (store.entry? place).isSome := by
  rw [hasDirectory_iff.mp directory]
  rfl

theorem IsTree.hasDirectory_of_prefix (tree : store.IsTree) (above : front <+: place)
    (apart : front ≠ place) (there : (store.entry? place).isSome) : store.hasDirectory front := by
  obtain ⟨back, rfl⟩ := above
  induction back using List.reverseRecOn with
  | nil => exact absurd (append_nil front).symm apart
  | append_singleton others last others_up =>
    have parent := tree _ there
    rw [← append_assoc, dropLast_concat] at parent
    by_cases none : others = []
    · rwa [none, append_nil] at parent
    · exact others_up (by simpa using none) (isSome_of_hasDirectory parent)

def advance (place : Place) (piece : String) : Place :=
  if isFiller piece then place
  else if piece == ".." then place.dropLast
  else place ++ [piece]

def through (place : Place) (pieces : List String) : Place := pieces.foldl advance place

/-- Pieces that lead through directories to a directory. -/
def Walks (store : Store) (place : Place) : List String → Prop
  | [] => store.hasDirectory place
  | piece :: rest => store.hasDirectory place ∧ store.Walks (advance place piece) rest

theorem follow_of_hasDirectory (directory : store.hasDirectory place) (piece : String) :
    store.follow place piece = .ok (advance place piece) := by
  rw [follow, hasDirectory_iff.mp directory]
  rfl

theorem followAll_append {front : List String} (walks : store.Walks place front)
    (back : List String) :
    store.followAll place (front ++ back) = store.followAll (through place front) back := by
  induction front generalizing place with
  | nil => rfl
  | cons piece rest rest_follow =>
    rw [cons_append, followAll, follow_of_hasDirectory walks.1]
    exact rest_follow walks.2

theorem Walks.hasDirectory (walks : store.Walks place pieces) :
    store.hasDirectory (through place pieces) := by
  induction pieces generalizing place with
  | nil => exact walks
  | cons piece rest rest_directory => exact rest_directory walks.2

theorem Walks.start (walks : store.Walks place pieces) : store.hasDirectory place := by
  cases pieces with
  | nil => exact walks
  | cons piece rest => exact walks.1

theorem Walks.mono (keeps : ∀ place, store.hasDirectory place → other.hasDirectory place)
    (walks : store.Walks place pieces) : other.Walks place pieces := by
  induction pieces generalizing place with
  | nil => exact keeps _ walks
  | cons piece rest rest_walks => exact ⟨keeps _ walks.1, rest_walks walks.2⟩

theorem followAll_filler {filler : String} {rest : List String} (fills : isFiller filler)
    (more : rest ≠ []) : store.followAll place (filler :: rest) = store.followAll place rest := by
  obtain ⟨piece, others, rfl⟩ := exists_cons_of_ne_nil more
  cases here : store.entry? place with
  | none => simp only [followAll, follow, here]; rfl
  | some entry =>
    cases entry with
    | file contents => simp only [followAll, follow, here]; rfl
    | directory =>
      have stays : store.follow place filler = .ok place := by
        rw [follow, here]
        simp only [fills, if_true]
      rw [followAll, stays]
      rfl

theorem followAll_filter {last : String} (step : isFiller last = false) (place : Place)
    (front : List String) :
    store.followAll place (front ++ [last]) =
      store.followAll place ((front ++ [last]).filter fun piece => !isFiller piece) := by
  induction front generalizing place with
  | nil => rw [nil_append, filter_cons_of_pos (by rw [step]; rfl), filter_nil]
  | cons piece rest rest_filter =>
    rw [cons_append]
    by_cases fills : isFiller piece
    · rw [filter_cons_of_neg (by simp [fills]), followAll_filler fills (by simp), rest_filter]
    · rw [filter_cons_of_pos (by simp [fills]), followAll, followAll]
      simp only [rest_filter]

/-- The steps to where a path starts: none for the root, those of the working directory else. -/
def origin (store : Store) (path : Path) : List String :=
  if path.isAbsolute then [] else store.workingDirectory.steps

/-- The place that a path leads to by its text, whether the way is there or not. -/
def aim (store : Store) (path : Path) : Place :=
  through [] (store.origin path ++ path.steps)

theorem aim_of_workingDirectory (same : other.workingDirectory = store.workingDirectory)
    (path : Path) : other.aim path = store.aim path := by
  rw [aim, aim, origin, origin, same]

theorem place_eq {path : Path} (ends : path.EndsInStep) :
    store.place path = store.followAll [] (store.origin path ++ path.steps) := by
  have written : path.text ≠ "" := by
    intro empty
    obtain ⟨front, last, cut, step⟩ := ends
    rw [empty, show Text.splitOn '/' "" = [""] from rfl] at cut
    have alone : last = "" := by
      cases front with
      | nil => exact (List.cons.inj cut).1.symm
      | cons piece rest => simp at cut
    rw [alone] at step
    cases step
  obtain ⟨front, last, cut, step⟩ := ends.join store.workingDirectory
  rw [place, if_neg (by simpa using written), cut, followAll_filter step, ← cut]
  exact congrArg _ (Path.steps_join _ _)

/-- A path whose steps lead through directories that are there and on by names: no parent
behind leads out of a directory that may be missing. -/
structure Anchored (store : Store) (path : Path) (fixed names : List String) : Prop where
  cut : path.steps = fixed ++ names
  named : names ≠ []
  down : ".." ∉ names
  /-- The steps in front lead through directories. -/
  walks : store.Walks [] (store.origin path ++ fixed)

/-- The directory from which on a path has only names. -/
def anchor (store : Store) (path : Path) (fixed : List String) : Place :=
  through [] (store.origin path ++ fixed)

theorem through_names {names : List String} (down : ".." ∉ names)
    (steps : ∀ name ∈ names, isFiller name = false) (place : Place) :
    through place names = place ++ names := by
  induction names generalizing place with
  | nil => exact (append_nil place).symm
  | cons name rest rest_through =>
    have forward : advance place name = place ++ [name] := by
      have other : name ≠ ".." := fun same => down (same ▸ mem_cons_self)
      simp [advance, steps name (.head _), other]
    rw [through, foldl_cons, forward]
    refine (rest_through (fun member => down (.tail _ member))
      (fun other member => steps other (.tail _ member)) _).trans ?_
    rw [append_assoc]
    rfl

theorem aim_join (store : Store) (base : Path) {tail : Path} (down : ".." ∉ tail.steps) :
    store.aim (base.join tail) =
      (if tail.isAbsolute then [] else store.aim base) ++ tail.steps := by
  have steps (name : String) (member : name ∈ tail.steps) : isFiller name = false := by
    simpa using (mem_filter.mp member).2
  rw [aim, origin, Path.isAbsolute_join, Path.steps_join, ← append_assoc, through, foldl_append]
  refine (through_names down steps _).trans (congrArg (· ++ tail.steps) ?_)
  by_cases absolute : tail.isAbsolute
  · simp [absolute]
  · simp only [absolute, Bool.false_or, Bool.false_eq_true, if_false]
    rfl

theorem prefix_dropLast (above : front <+: place) (apart : front ≠ place) :
    front <+: place.dropLast := by
  rcases eq_nil_or_concat' place with rfl | ⟨parents, last, rfl⟩
  · exact absurd (prefix_nil.mp above) apart
  · rw [dropLast_concat]
    exact (prefix_concat_iff.mp above).resolve_left apart

/-- A file stands somewhere on the way to a place or at it. -/
def Blocked (store : Store) (place : Place) : Prop :=
  ∃ front contents, front <+: place ∧ store.entry? front = some (.file contents)

theorem IsTree.not_blocked (tree : store.IsTree) (directory : store.hasDirectory place) :
    ¬store.Blocked place := by
  rintro ⟨front, contents, above, file⟩
  refine not_hasDirectory_of_file file ?_
  by_cases same : front = place
  · rwa [same]
  · exact tree.hasDirectory_of_prefix above same (isSome_of_hasDirectory directory)

theorem IsTree.entry?_eq_none (tree : store.IsTree) (above : front <+: place)
    (apart : front ≠ place) (missing : ¬store.hasDirectory front) : store.entry? place = none := by
  cases there : store.entry? place with
  | none => rfl
  | some entry =>
    exact absurd (tree.hasDirectory_of_prefix above apart (by rw [there]; rfl)) missing

/-- How following a path to a place ends: it is found if the last directory on the way is there;
else a file on the way is told apart from a missing directory. -/
inductive Ends (store : Store) (directory place : Place) (result : Except Failure Place) : Prop
  | found (there : store.hasDirectory directory) (run : result = .ok place)
  | missing (gone : ¬store.hasDirectory directory) (free : ¬store.Blocked directory)
      (run : result = .error .notFound)
  | blocked (file : store.Blocked directory) (run : result = .error .notDirectory)

theorem followAll_names (tree : store.IsTree) {base : Place} (directory : store.hasDirectory base)
    (down : ".." ∉ directories ++ [name])
    (steps : ∀ step ∈ directories ++ [name], isFiller step = false) :
    store.Ends (base ++ directories) (base ++ directories ++ [name])
      (store.followAll base (directories ++ [name])) := by
  induction directories generalizing base with
  | nil =>
    refine .found (by rwa [append_nil]) ?_
    have forward := through_names down steps base
    rw [nil_append] at forward ⊢
    rw [followAll, follow_of_hasDirectory directory, append_nil, ← forward]
    rfl
  | cons first rest rest_cases =>
    have forward : advance base first = base ++ [first] :=
      through_names (by simp_all : ".." ∉ [first]) (by simp_all) base
    rw [cons_append, followAll, follow_of_hasDirectory directory, forward]
    have down_rest : ".." ∉ rest ++ [name] := fun member => down (.tail _ member)
    have steps_rest : ∀ step ∈ rest ++ [name], isFiller step = false :=
      fun step member => steps step (.tail _ member)
    have split : base ++ first :: rest = base ++ [first] ++ rest := by
      rw [append_assoc]
      rfl
    rw [split]
    -- The next place decides: a directory leads on, anything else ends the way.
    obtain ⟨next, others, more⟩ : ∃ next others, rest ++ [name] = next :: others :=
      exists_cons_of_ne_nil (by simp)
    cases there : store.entry? (base ++ [first]) with
    | some entry =>
      cases entry with
      | directory => exact rest_cases (hasDirectory_iff.mpr there) down_rest steps_rest
      | file contents =>
        refine .blocked ⟨_, contents, ⟨rest, rfl⟩, there⟩ ?_
        change store.followAll (base ++ [first]) (rest ++ [name]) = _
        rw [more, followAll, follow, there]
        rfl
    | none =>
      have gone {place : Place} (below : base ++ [first] <+: place) :
          store.entry? place = none := by
        by_cases same : base ++ [first] = place
        · rwa [← same]
        · exact tree.entry?_eq_none below same (not_hasDirectory_of_none there)
      refine .missing (not_hasDirectory_of_none (gone ⟨rest, rfl⟩)) ?_ ?_
      · rintro ⟨front, contents, within, file⟩
        rcases prefix_or_prefix_of_prefix within ⟨rest, rfl⟩ with before | behind
        · rcases prefix_concat_iff.mp before with rfl | inside
          · rw [there] at file
            cases file
          · exact tree.not_blocked directory ⟨front, contents, inside, file⟩
        · rw [gone behind] at file
          cases file
      · change store.followAll (base ++ [first]) (rest ++ [name]) = _
        rw [more, followAll, follow, there]
        rfl

namespace Anchored

variable {store : Store} {path : Path} {fixed names : List String}
variable (anchored : store.Anchored path fixed names)
include anchored

theorem isFiller_eq_false (member : name ∈ names) : isFiller name = false := by
  have listed : name ∈ path.steps := anchored.cut ▸ mem_append_right fixed member
  simpa using (mem_filter.mp listed).2

theorem aim_eq : store.aim path = store.anchor path fixed ++ names := by
  rw [aim, anchored.cut, ← append_assoc, through, foldl_append]
  exact through_names anchored.down (fun _ => anchored.isFiller_eq_false) _

theorem aim_ne_nil : store.aim path ≠ [] := by
  simp [anchored.aim_eq, anchored.named]

theorem text_ne_empty : path.text ≠ "" := by
  intro empty
  have none : path.steps = [] := by rw [Path.steps, empty]; rfl
  simp [anchored.cut, anchored.named] at none

theorem mono (same : other.workingDirectory = store.workingDirectory)
    (keeps : ∀ place, store.hasDirectory place → other.hasDirectory place) :
    other.Anchored path fixed names := by
  refine ⟨anchored.cut, anchored.named, anchored.down, ?_⟩
  rw [origin, same]
  exact anchored.walks.mono keeps

theorem followAll_cases (tree : store.IsTree) :
    store.Ends (store.aim path).dropLast (store.aim path)
      (store.followAll [] (store.origin path ++ path.steps)) := by
  obtain ⟨directories, name, rfl⟩ := (eq_nil_or_concat' names).resolve_left anchored.named
  have followed := followAll_names tree anchored.walks.hasDirectory anchored.down
    (fun _ => anchored.isFiller_eq_false)
  rw [anchored.cut, ← append_assoc, followAll_append anchored.walks,
    anchored.aim_eq, ← append_assoc, dropLast_concat]
  exact followed

theorem place_cases (tree : store.IsTree) (ends : path.EndsInStep) :
    store.Ends (store.aim path).dropLast (store.aim path) (store.place path) := by
  rw [place_eq ends]
  exact anchored.followAll_cases tree

theorem place_of_hasDirectory (tree : store.IsTree)
    (ends : path.EndsInStep) (directory : store.hasDirectory (store.aim path).dropLast) :
    store.place path = .ok (store.aim path) := by
  cases anchored.place_cases tree ends with
  | found _ run => exact run
  | missing gone => exact absurd directory gone
  | blocked file => exact absurd file (tree.not_blocked directory)

omit anchored

theorem exists_parent (anchored : store.Anchored path fixed (directories ++ [name])) :
    ∃ above, path.parent? = some above ∧ store.aim above = (store.aim path).dropLast ∧
      (directories ≠ [] → above.EndsInStep ∧ store.Anchored above fixed directories) ∧
      (directories = [] → store.Walks [] (store.origin above ++ above.steps)) := by
  obtain ⟨above, parent, steps, absolute, ends⟩ :=
    Path.parent_of_steps (anchored.cut.trans (append_assoc _ _ _).symm)
  have origin_eq : store.origin above = store.origin path := by rw [origin, origin, absolute]
  have walks := anchored.walks
  rw [← origin_eq] at walks
  refine ⟨above, parent, ?_, fun more => ⟨ends (by simp [more]), steps, more, ?_, walks⟩, ?_⟩
  · have down : ".." ∉ directories := fun member => anchored.down (mem_append_left _ member)
    have names : ∀ name ∈ directories, isFiller name = false :=
      fun _ member => anchored.isFiller_eq_false (mem_append_left _ member)
    rw [anchored.aim_eq, ← append_assoc, dropLast_concat, aim, steps,
      ← append_assoc, through, foldl_append, anchor, ← origin_eq]
    exact through_names down names _
  · exact fun member => anchored.down (mem_append_left _ member)
  · rintro rfl
    rwa [steps, append_nil]

end Anchored

end Haxify.Files.Store
