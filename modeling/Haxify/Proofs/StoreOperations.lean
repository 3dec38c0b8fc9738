import Haxify.Proofs.Following

/-!
# What operations do to a file store

Every operation at an anchored path is described by what stands at each place afterwards: the
directories on the way to it that were made, the file that is at its place or is gone, and
all that is gone below it. Which of them succeed is told by two facts alone: whether a file is
on the way, and whether a directory is where the file goes.
-/

namespace Haxify.Files.Store

open List
open Haxify.Path (isFiller ofPiece)

variable {fillers : List String} {store made : Store} {path : Path} {place other : Place}
  {names fixed : List String}

/-- A store in which the missing directories down to a place were made, and nothing else. -/
structure Filled (store made : Store) (place : Place) : Prop where
  workingDirectory : made.workingDirectory = store.workingDirectory
  /-- What is missing on the way is a directory now. -/
  entry? : ∀ other, made.entry? other =
    if other <+: place ∧ store.entry? other = none then some .directory else store.entry? other

namespace Filled

variable (filled : store.Filled made place)
include filled

theorem hasDirectory (directory : store.hasDirectory other) : made.hasDirectory other := by
  rw [hasDirectory_iff] at *
  rw [filled.entry?, if_neg (by simp [directory]), directory]

theorem hasDirectory_of_prefix (free : ¬store.Blocked place)
    (above : other <+: place) : made.hasDirectory other := by
  rw [hasDirectory_iff, filled.entry?]
  cases there : store.entry? other with
  | none => rw [if_pos ⟨above, rfl⟩]
  | some entry =>
    cases entry with
    | directory => rw [if_neg (by simp)]
    | file contents => exact absurd ⟨other, contents, above, there⟩ free

theorem isTree (tree : store.IsTree) (free : ¬store.Blocked place) : made.IsTree := by
  intro other there
  by_cases new : other <+: place ∧ store.entry? other = none
  · exact filled.hasDirectory_of_prefix free ((List.dropLast_prefix other).trans new.1)
  · rw [filled.entry?, if_neg new] at there
    exact filled.hasDirectory (tree other there)

omit filled

theorem trans (filled : store.Filled made place.dropLast) {last : Store}
    (behind : made.Filled last place) : store.Filled last place := by
  refine ⟨behind.workingDirectory.trans filled.workingDirectory, fun other => ?_⟩
  rw [behind.entry?, filled.entry?]
  by_cases above : other <+: place.dropLast ∧ store.entry? other = none
  · rw [if_pos above, if_neg (by simp),
      if_pos ⟨above.1.trans (List.dropLast_prefix place), above.2⟩]
  · rw [if_neg above]

theorem refl (tree : store.IsTree) (directory : store.hasDirectory place) :
    store.Filled store place := by
  refine ⟨rfl, fun other => ?_⟩
  rw [if_neg]
  rintro ⟨above, missing⟩
  refine not_hasDirectory_of_none missing ?_
  by_cases same : other = place
  · rwa [same]
  · exact tree.hasDirectory_of_prefix above same (isSome_of_hasDirectory directory)

end Filled

theorem isDirectory_eq (found : store.place path = .ok place) :
    store.isDirectory path = store.hasDirectory place := by
  rw [isDirectory, find, found, hasDirectory]
  simp only [bind, Except.bind]
  cases store.entry? place with
  | none => rfl
  | some entry => cases entry <;> rfl

theorem isDirectory_of_error {failure : Failure} (lost : store.place path = .error failure) :
    store.isDirectory path = false := by
  rw [isDirectory, find, lost]
  rfl

theorem makeDirectory_eq (found : store.place path = .ok place) :
    store.makeDirectory path =
      if (store.entry? place).isSome then .error .exists
      else .ok { store with entries := put place .directory store.entries } := by
  rw [makeDirectory, found]
  simp only [bind, Except.bind]
  split <;> rfl

theorem not_blocked_of_missing (free : ¬store.Blocked place.dropLast)
    (missing : store.entry? place = none) : ¬store.Blocked place := by
  rintro ⟨front, contents, above, file⟩
  by_cases same : front = place
  · rw [same, missing] at file
    cases file
  · exact free ⟨front, contents, prefix_dropLast above same, file⟩

theorem makeDirectory_filled (tree : store.IsTree) (found : store.place path = .ok place)
    (below : place ≠ []) (directory : store.hasDirectory place.dropLast)
    (missing : store.entry? place = none) :
    ∃ made, store.makeDirectory path = .ok made ∧ store.Filled made place := by
  refine ⟨{ store with entries := put place .directory store.entries }, ?_, rfl, fun other => ?_⟩
  · rw [makeDirectory_eq found, missing]
    rfl
  · rw [entry?_put store .directory below]
    by_cases same : other = place
    · rw [if_pos same, if_pos ⟨same ▸ prefix_rfl, same ▸ missing⟩]
    · rw [if_neg same, if_neg]
      rintro ⟨above, none⟩
      have there := Filled.entry? (Filled.refl tree directory) other
      rw [if_pos ⟨prefix_dropLast above same, none⟩, none] at there
      cases there

theorem dropLast_ne (below : place ≠ []) : place.dropLast ≠ place := by
  intro same
  have length := congrArg List.length same
  have := length_pos_iff.mpr below
  rw [length_dropLast] at length
  omega

theorem not_prefix_dropLast (below : place ≠ []) : ¬place <+: place.dropLast := fun inside =>
  dropLast_ne below (inside.eq_of_length_le (by simp)).symm

theorem IsTree.entry?_eq_none_of_parent (tree : store.IsTree) (below : place ≠ [])
    (missing : ¬store.hasDirectory place.dropLast) : store.entry? place = none :=
  tree.entry?_eq_none (List.dropLast_prefix _) (dropLast_ne below) missing

theorem blocked_of_dropLast (blocked : store.Blocked place.dropLast) : store.Blocked place := by
  obtain ⟨front, contents, within, file⟩ := blocked
  exact ⟨front, contents, within.trans (List.dropLast_prefix _), file⟩

theorem Anchored.makeDirectory_behind (tree : store.IsTree)
    (anchored : store.Anchored path fixed names) (ends : path.EndsInStep)
    (free : ¬store.Blocked (store.aim path).dropLast)
    (missing : store.entry? (store.aim path) = none)
    (filled : store.Filled made (store.aim path).dropLast) :
    ∃ last, made.makeDirectory path = .ok last ∧ store.Filled last (store.aim path) := by
  have below := anchored.aim_ne_nil
  have made_tree := filled.isTree tree free
  have there := filled.hasDirectory_of_prefix free prefix_rfl
  have made_anchored := anchored.mono filled.workingDirectory fun _ => filled.hasDirectory
  have made_aim := aim_of_workingDirectory filled.workingDirectory path
  have found := made_anchored.place_of_hasDirectory made_tree ends (made_aim ▸ there)
  rw [made_aim] at found
  have made_missing : made.entry? (store.aim path) = none := by
    rw [filled.entry?, if_neg fun inside => not_prefix_dropLast below inside.1, missing]
  obtain ⟨last, run, behind⟩ := makeDirectory_filled made_tree found below there made_missing
  exact ⟨last, run, filled.trans behind⟩

theorem Anchored.ancestors_eq {above : Path} (anchored : store.Anchored path fixed names)
    (parent : path.parent? = some above) (count : Nat) :
    ancestors (count + 1) path = path :: ancestors count above := by
  have written : (path.text == "") = false := beq_eq_false_iff_ne.mpr anchored.text_ne_empty
  rw [ancestors, parent]
  simp only [written]
  rfl

/-- The directories down to a place are made, exactly if no file is on the way. -/
inductive Fills (store : Store) (place : Place) (run : Except Failure Store) : Prop
  | filled (free : ¬store.Blocked place) (made : Store) (done : run = .ok made)
      (filled : store.Filled made place)
  | blocked (file : store.Blocked place) (failure : Failure) (failed : run = .error failure)

theorem makeChain_of_found (tree : store.IsTree) (found : store.place path = .ok place)
    (below : place ≠ []) (directory : store.hasDirectory place.dropLast) (rest : List Path) :
    store.Fills place (store.makeChain (path :: rest)) := by
  rw [makeChain]
  cases there : store.entry? place with
  | none =>
    obtain ⟨made, run, filled⟩ := makeDirectory_filled tree found below directory there
    rw [run]
    exact .filled (not_blocked_of_missing (tree.not_blocked directory) there) made rfl filled
  | some entry =>
    have refused : store.makeDirectory path = .error .exists := by
      rw [makeDirectory_eq found, there]
      rfl
    rw [refused]
    simp only [isDirectory_eq found, hasDirectory, there]
    cases entry with
    | directory =>
      have is := hasDirectory_iff.mpr there
      exact .filled (tree.not_blocked is) store rfl (Filled.refl tree is)
    | file contents => exact .blocked ⟨_, contents, prefix_rfl, there⟩ .exists rfl

/-- Making a directory with all that are missing above it fills the way to its place, unless a
file is on the way. The induction is on the names: the parent of a path has one name less. -/
theorem makeChain_cases (tree : store.IsTree) (anchored : store.Anchored path fixed names)
    (ends : path.EndsInStep) {count : Nat} (enough : names.length ≤ count) :
    store.Fills (store.aim path) (store.makeChain (ancestors count path)) := by
  induction names using List.reverseRecOn generalizing path count with
  | nil => exact absurd rfl anchored.named
  | append_singleton directories name directories_cases =>
    obtain ⟨above, parent, above_aim, more, _⟩ := anchored.exists_parent
    have aim_eq := anchored.aim_eq
    rw [← append_assoc] at aim_eq
    rw [length_append, length_singleton] at enough
    obtain ⟨rest, rfl⟩ : ∃ rest, count = rest + 1 := ⟨count - 1, by omega⟩
    rw [anchored.ancestors_eq parent]
    rcases anchored.place_cases tree ends with
      ⟨directory, found⟩ | ⟨missing, free, lost⟩ | ⟨blocked, refused⟩
    · exact makeChain_of_found tree found anchored.aim_ne_nil directory _
    · -- The directory above is made first; then this one is missing in a directory.
      have failed : store.makeDirectory path = .error .notFound := by
        rw [makeDirectory, lost]
        rfl
      have nothing := tree.entry?_eq_none_of_parent anchored.aim_ne_nil missing
      have named : directories ≠ [] := by
        rintro rfl
        rw [aim_eq, dropLast_concat, append_nil] at missing
        exact missing anchored.walks.hasDirectory
      obtain ⟨above_ends, above_anchored⟩ := more named
      have shorter : directories.length ≤ rest := by omega
      rcases directories_cases above_anchored above_ends shorter with
        ⟨_, made, run, filled⟩ | ⟨blocked, _, _⟩
      · rw [above_aim] at filled
        obtain ⟨last, finish, whole⟩ := anchored.makeDirectory_behind tree ends free nothing filled
        rw [makeChain, failed]
        simp only [run, bind, Except.bind, finish]
        exact .filled (not_blocked_of_missing free nothing) last rfl whole
      · exact absurd (above_aim ▸ blocked) free
    · have failed : store.makeDirectory path = .error .notDirectory := by
        rw [makeDirectory, refused]
        rfl
      rw [makeChain, failed]
      simp only [isDirectory_of_error refused]
      exact .blocked (blocked_of_dropLast blocked) .notDirectory rfl

theorem followAll_of_walks {pieces : List String}
    (walks : store.Walks place (pieces.filter fun piece => !isFiller piece)) :
    store.followAll place pieces =
      .ok (through place (pieces.filter fun piece => !isFiller piece)) := by
  induction pieces generalizing place with
  | nil => rfl
  | cons piece rest rest_follow =>
    by_cases fills : isFiller piece
    · rw [filter_cons_of_neg (by simp [fills])] at walks ⊢
      have stays : advance place piece = place := by rw [advance, if_pos fills]
      rw [followAll, follow_of_hasDirectory walks.start, stays]
      exact rest_follow walks
    · rw [filter_cons_of_pos (by simp [fills])] at walks ⊢
      rw [followAll, follow_of_hasDirectory walks.1]
      exact rest_follow walks.2

theorem place_of_walks (written : path.text ≠ "")
    (walks : store.Walks [] (store.origin path ++ path.steps)) :
    store.place path = .ok (store.aim path) := by
  rw [origin, ← Path.steps_join] at walks
  rw [place, if_neg (by simpa using written)]
  refine (followAll_of_walks walks).trans ?_
  rw [aim, origin, ← Path.steps_join]
  rfl

theorem length_steps_le (path : Path) : path.steps.length ≤ path.components.length := by
  have same (pieces : List String) :
      (pieces.filter fun piece => !isFiller piece).length = (pieces.filterMap ofPiece).length := by
    induction pieces with
    | nil => rfl
    | cons piece rest rest_same =>
      by_cases fills : isFiller piece
      · rw [filter_cons_of_neg (by simp [fills]),
          filterMap_cons_none (by simp [ofPiece, fills]), rest_same]
      · obtain ⟨component, stands⟩ : ∃ component, ofPiece piece = some component := by
          by_cases parent : piece = ".."
          · exact ⟨.parent, by rw [parent]; rfl⟩
          · exact ⟨.name piece, by simp [ofPiece, fills, parent]⟩
        rw [filter_cons_of_pos (by simp [fills]), filterMap_cons_some stands,
          length_cons, length_cons, rest_same]
  rw [Path.steps, same, Path.components, length_append]
  exact Nat.le_add_left _ _

theorem Anchored.makeDirectories_cases (anchored : store.Anchored path fixed names)
    (tree : store.IsTree) :
    store.Fills (store.aim path).dropLast (store.makeDirectories path.directory) := by
  obtain ⟨directories, name, rfl⟩ := (eq_nil_or_concat' names).resolve_left anchored.named
  obtain ⟨above, parent, above_aim, more, none⟩ := anchored.exists_parent
  rw [Path.directory, parent, Option.getD_some, makeDirectories, ← above_aim]
  by_cases named : directories = []
  · -- The directory is there: either nothing is left to make, or it is found.
    have walks := none named
    have directory : store.hasDirectory (store.aim above) := walks.hasDirectory
    refine .filled (tree.not_blocked directory) store ?_ (Filled.refl tree directory)
    rw [ancestors]
    cases higher : above.parent? with
    | none => rfl
    | some parents =>
      by_cases empty : above.text = ""
      · simp only [empty, beq_self_eq_true, if_true]
        rfl
      · have found := place_of_walks empty walks
        have refused : store.makeDirectory above = .error .exists := by
          rw [makeDirectory_eq found, if_pos (isSome_of_hasDirectory directory)]
        simp only [beq_eq_false_iff_ne.mpr empty, Bool.false_eq_true, if_false]
        rw [makeChain, refused]
        simp only [isDirectory_eq found, directory, if_true]
  · obtain ⟨above_ends, above_anchored⟩ := more named
    have enough : directories.length ≤ above.components.length + 1 := by
      have steps := length_steps_le above
      rw [above_anchored.cut, length_append] at steps
      omega
    exact makeChain_cases tree above_anchored above_ends enough

/-- A place at which a file can be put or taken away: no file is on the way to it, and it is
no directory. -/
structure Clear (store : Store) (place : Place) : Prop where
  way : ¬store.Blocked place.dropLast
  vacant : ¬store.hasDirectory place

theorem Clear.ne_nil (clear : store.Clear place) : place ≠ [] := by
  rintro rfl
  exact clear.vacant store.hasDirectory_root

/-- A store in which one place holds a file or nothing, the missing directories on the way to
a file were made, and nothing else changed. -/
structure Settles (store after : Store) (place : Place) (left : Option Contents) : Prop where
  workingDirectory : after.workingDirectory = store.workingDirectory
  entry? : ∀ other, after.entry? other =
    if other = place then left.map .file
    else if left.isSome ∧ other <+: place ∧ store.entry? other = none then some .directory
    else store.entry? other

namespace Settles

variable {store after : Store} {place : Place} {left : Option Contents}
variable (settles : store.Settles after place left)
include settles

theorem hasDirectory (clear : store.Clear place)
    (directory : store.hasDirectory other) : after.hasDirectory other := by
  have apart : other ≠ place := fun same => clear.vacant (same ▸ directory)
  rw [hasDirectory_iff] at *
  rw [settles.entry?, if_neg apart, if_neg (by simp [directory]), directory]

theorem hasDirectory_of_prefix (clear : store.Clear place) (filled : left.isSome)
    (above : other <+: place.dropLast) : after.hasDirectory other := by
  have apart : other ≠ place := by
    rintro rfl
    exact not_prefix_dropLast clear.ne_nil above
  have within := above.trans (List.dropLast_prefix place)
  cases there : store.entry? other with
  | none =>
    rw [hasDirectory_iff, settles.entry?, if_neg apart, if_pos ⟨filled, within, there⟩]
  | some entry =>
    cases entry with
    | directory => exact settles.hasDirectory clear (hasDirectory_iff.mpr there)
    | file contents => exact absurd ⟨other, contents, above, there⟩ clear.way

theorem isTree (tree : store.IsTree) (clear : store.Clear place) : after.IsTree := by
  intro other there
  by_cases here : other = place
  · subst here
    rw [settles.entry?, if_pos rfl, Option.isSome_map] at there
    exact settles.hasDirectory_of_prefix clear there prefix_rfl
  · by_cases new : left.isSome ∧ other <+: place ∧ store.entry? other = none
    · have inside := prefix_dropLast new.2.1 here
      exact settles.hasDirectory_of_prefix clear new.1 ((List.dropLast_prefix other).trans inside)
    · rw [settles.entry?, if_neg here, if_neg new] at there
      exact settles.hasDirectory clear (tree other there)

theorem clear_iff (clear : store.Clear place)
    (below : place <+: other → place = other) (above : other <+: place → other = place) :
    after.Clear other ↔ store.Clear other := by
  have outside {front : Place} (inside : front <+: other.dropLast) (ne_nil : other ≠ []) :
      front ≠ place := by
    rintro rfl
    have same := below (inside.trans (List.dropLast_prefix other))
    exact not_prefix_dropLast ne_nil (same ▸ inside)
  constructor
  · rintro ⟨way, vacant⟩
    have ne_nil : other ≠ [] := by
      rintro rfl
      exact vacant after.hasDirectory_root
    refine ⟨?_, ?_⟩
    · rintro ⟨front, contents, inside, file⟩
      refine way ⟨front, contents, inside, ?_⟩
      rw [settles.entry?, if_neg (outside inside ne_nil), if_neg (by simp [file]), file]
    · exact fun directory => vacant (settles.hasDirectory clear directory)
  · intro known
    refine ⟨?_, ?_⟩
    · rintro ⟨front, contents, inside, file⟩
      rw [settles.entry?, if_neg (outside inside known.ne_nil)] at file
      split at file
      · cases file
      · exact known.way ⟨front, contents, inside, file⟩
    · intro directory
      rw [hasDirectory_iff, settles.entry?] at directory
      split at directory
      · cases left <;> cases directory
      rename_i apart
      split at directory
      · rename_i new
        exact apart (above new.2.1)
      · exact known.vacant (hasDirectory_iff.mpr directory)

end Settles

section Anchored

variable (anchored : store.Anchored path fixed names) (tree : store.IsTree)
  (ends : path.EndsInStep)
include anchored tree ends

theorem Anchored.read_eq_ok_iff (contents : Contents) :
    store.read path = .ok contents ↔ store.entry? (store.aim path) = some (.file contents) := by
  have nothing := tree.entry?_eq_none_of_parent anchored.aim_ne_nil
  rcases anchored.place_cases tree ends with ⟨_, found⟩ | ⟨missing, _, lost⟩ | ⟨blocked, lost⟩
  · rw [read, find, found]
    simp only [bind, Except.bind]
    cases store.entry? (store.aim path) with
    | none => simp
    | some entry => cases entry <;> simp
  · rw [nothing missing, read, find, lost]
    simp [bind, Except.bind]
  · rw [nothing fun directory => tree.not_blocked directory blocked, read, find, lost]
    simp [bind, Except.bind]

/-- At an anchored path whose place is not clear no file can be taken away. At one whose place
is clear nothing is there, or the file there is taken away and nothing else. -/
theorem Anchored.removeFile_cases :
    (store.Clear (store.aim path) ∧
        ((store.entry? (store.aim path) = none ∧ store.removeFile path = .error .notFound) ∨
          ∃ contents after, store.entry? (store.aim path) = some (.file contents) ∧
            store.removeFile path = .ok after ∧ store.Settles after (store.aim path) none)) ∨
      (¬store.Clear (store.aim path) ∧
        ∃ failure, failure ≠ .notFound ∧ store.removeFile path = .error failure) := by
  have below := anchored.aim_ne_nil
  rcases anchored.place_cases tree ends with ⟨directory, found⟩ | ⟨missing, free, lost⟩ |
    ⟨blocked, refused⟩
  · rw [removeFile, found]
    simp only [bind, Except.bind]
    cases there : store.entry? (store.aim path) with
    | none =>
      exact .inl ⟨⟨tree.not_blocked directory, not_hasDirectory_of_none there⟩, .inl ⟨rfl, rfl⟩⟩
    | some entry =>
      cases entry with
      | directory =>
        exact .inr ⟨fun clear => clear.vacant (hasDirectory_iff.mpr there), .isDirectory, by decide,
          rfl⟩
      | file contents =>
        have vacant := not_hasDirectory_of_file there
        refine .inl ⟨⟨tree.not_blocked directory, vacant⟩, .inr ⟨contents,
          { store with entries := withoutBelow (store.aim path) store.entries }, rfl, rfl, rfl, ?_⟩⟩
        intro other
        rw [entry?_withoutBelow store below]
        by_cases same : other = store.aim path
        · rw [if_pos (same ▸ prefix_rfl), if_pos same]
          rfl
        · rw [if_neg same]
          simp only [Option.isSome_none, Bool.false_eq_true, false_and, if_false]
          split
          · rename_i inside
            exact (tree.entry?_eq_none inside (Ne.symm same) vacant).symm
          · rfl
  · have nothing := tree.entry?_eq_none_of_parent below missing
    refine .inl ⟨⟨free, not_hasDirectory_of_none nothing⟩, .inl ⟨nothing, ?_⟩⟩
    rw [removeFile, lost]
    rfl
  · refine .inr ⟨fun clear => clear.way blocked, .notDirectory, by decide, ?_⟩
    rw [removeFile, refused]
    rfl

theorem Anchored.write_cases (free : ¬store.Blocked (store.aim path).dropLast)
    (filled : store.Filled made (store.aim path).dropLast) (contents : Contents) :
    (¬store.hasDirectory (store.aim path) ∧
        ∃ after, made.write path contents = .ok after ∧
          store.Settles after (store.aim path) (some contents)) ∨
      (store.hasDirectory (store.aim path) ∧ made.write path contents = .error .isDirectory) := by
  have below := anchored.aim_ne_nil
  have made_aim := aim_of_workingDirectory filled.workingDirectory path
  have found := (anchored.mono filled.workingDirectory fun _ => filled.hasDirectory)
    |>.place_of_hasDirectory (filled.isTree tree free) ends
      (made_aim ▸ filled.hasDirectory_of_prefix free prefix_rfl)
  rw [made_aim] at found
  have same_entry : made.entry? (store.aim path) = store.entry? (store.aim path) := by
    rw [filled.entry?, if_neg fun inside => not_prefix_dropLast below inside.1]
  have same_directory :
      made.hasDirectory (store.aim path) = store.hasDirectory (store.aim path) := by
    rw [hasDirectory, hasDirectory, same_entry]
  rw [write, found]
  simp only [bind, Except.bind, same_directory]
  by_cases directory : store.hasDirectory (store.aim path)
  · refine .inr ⟨directory, ?_⟩
    rw [if_pos directory]
    rfl
  · refine .inl ⟨directory,
      { made with entries := put (store.aim path) (.file contents) made.entries },
      by rw [if_neg directory]; rfl, filled.workingDirectory, ?_⟩
    intro other
    rw [entry?_put made _ below, filled.entry?]
    by_cases same : other = store.aim path
    · rw [if_pos same, if_pos same]
      rfl
    · rw [if_neg same, if_neg same]
      have above_iff : other <+: (store.aim path).dropLast ↔ other <+: store.aim path :=
        ⟨fun above => above.trans (List.dropLast_prefix _), fun above => prefix_dropLast above same⟩
      simp only [above_iff, Option.isSome_some, true_and]

end Anchored

/-- A store from which a place was taken away with all that is below it. -/
structure Emptied (store after : Store) (place : Place) : Prop where
  workingDirectory : after.workingDirectory = store.workingDirectory
  entry? : ∀ other, after.entry? other = if place <+: other then none else store.entry? other

theorem emptied_of_missing (tree : store.IsTree) (nothing : store.entry? place = none) :
    store.Emptied store place := by
  refine ⟨rfl, fun other => ?_⟩
  by_cases inside : place <+: other
  · rw [if_pos inside]
    by_cases same : place = other
    · rwa [← same]
    · exact tree.entry?_eq_none inside same (not_hasDirectory_of_none nothing)
  · rw [if_neg inside]

theorem followAll_append_bind (store : Store) (place : Place) (front back : List String) :
    store.followAll place (front ++ back) =
      store.followAll place front >>= fun next => store.followAll next back := by
  induction front generalizing place with
  | nil => rfl
  | cons piece rest rest_append =>
    rw [cons_append, followAll, followAll]
    cases store.follow place piece with
    | error failure => rfl
    | ok next => exact rest_append next

theorem followAll_fillers (store : Store) (place : Place)
    (fill : ∀ piece ∈ fillers, isFiller piece) :
    store.followAll place fillers = .ok place ∨
      (store.entry? place = none ∧ store.followAll place fillers = .error .notFound) ∨
      ∃ contents, store.entry? place = some (.file contents) ∧
        store.followAll place fillers = .error .notDirectory := by
  induction fillers with
  | nil => exact .inl rfl
  | cons piece rest rest_cases =>
    rw [followAll, follow]
    cases there : store.entry? place with
    | none => exact .inr (.inl ⟨rfl, rfl⟩)
    | some entry =>
      cases entry with
      | file contents => exact .inr (.inr ⟨contents, rfl, rfl⟩)
      | directory =>
        rcases rest_cases fun other member => fill other (.tail _ member) with
          done | ⟨missing, _⟩ | ⟨_, file, _⟩
        · refine .inl ?_
          simp only [fill piece (.head _), if_true]
          exact done
        · rw [there] at missing
          cases missing
        · rw [there] at file
          cases file

/-- An anchored path is followed along its steps and then along the fillers behind its last
name, of which the last piece of the path is one if there are any. -/
theorem Anchored.exists_fillers (anchored : store.Anchored path fixed names) :
    ∃ name fillers, name ∈ names ∧ (∀ piece ∈ fillers, isFiller piece) ∧
      (Text.splitOn '/' path.text).getLast? = some (fillers.getLast?.getD name) ∧
      store.place path = store.followAll [] (store.origin path ++ path.steps) >>=
        fun place => store.followAll place fillers := by
  obtain ⟨front, pieces, kept⟩ := Path.splitOn_join store.workingDirectory path
  obtain ⟨fillers, cut, fill⟩ := Path.exists_dropFillers (Text.splitOn '/' path.text)
  have steps_eq : path.steps =
      (Path.dropFillers (Text.splitOn '/' path.text)).filter fun piece => !isFiller piece := by
    rw [Path.steps, cut, filter_append, Path.filter_of_fillers fill, append_nil, ← cut]
  rcases Path.dropFillers_eq_nil_or (Text.splitOn '/' path.text) with
    none | ⟨before, name, whole, step⟩
  · rw [none, anchored.cut] at steps_eq
    simp [anchored.named] at steps_eq
  · have kept_name : ([name].filter fun piece => !isFiller piece) = [name] := by simp [step]
    rw [whole] at cut steps_eq
    refine ⟨name, fillers, ?_, fill, ?_, ?_⟩
    · obtain ⟨directories, last, rfl⟩ :=
        (eq_nil_or_concat' names).resolve_left anchored.named
      rw [anchored.cut, filter_append, kept_name, ← append_assoc] at steps_eq
      obtain ⟨_, same⟩ := append_inj' steps_eq rfl
      rw [(List.cons.inj same).1]
      simp
    · rw [cut, getLast?_append, getLast?_append]
      cases fillers.getLast? <;> rfl
    · have written := anchored.text_ne_empty
      have course : (front ++ before ++ [name]).filter (fun piece => !isFiller piece) =
          store.origin path ++ path.steps := by
        rw [append_assoc, filter_append, kept, ← steps_eq]
        rfl
      rw [place, if_neg (by simpa using written), pieces, cut, ← append_assoc,
        ← append_assoc, followAll_append_bind, followAll_filter step, course]

theorem getLastD_fillers_ne {name : String} (down : ".." ∉ names)
    (named : name ∈ names) (fill : ∀ piece ∈ fillers, isFiller piece) :
    fillers.getLast?.getD name ≠ ".." := by
  cases final : fillers.getLast? with
  | none => exact fun same => down (same ▸ named)
  | some piece =>
    rintro rfl
    exact absurd (fill ".." (mem_of_getLast? final)) (by decide)

/-- A directory that cannot be followed to, or that is a file, is not taken away; else what is
at the place and below it is gone. -/
theorem Anchored.removeDirectories_cases (anchored : store.Anchored path fixed names)
    (tree : store.IsTree) (plain : (Text.splitOn '/' path.text).getLast? ≠ some ".") :
    (¬store.Blocked (store.aim path) ∧
        ∃ result after, store.removeDirectories path = (result, after) ∧
          (result = .ok () ∨ result = .error .notFound) ∧
          store.Emptied after (store.aim path)) ∨
      (store.Blocked (store.aim path) ∧ ∃ failure, failure ≠ .notFound ∧
        store.removeDirectories path = (.error failure, store)) := by
  have below := anchored.aim_ne_nil
  obtain ⟨name, fillers, named, fill, ending, place_eq⟩ := anchored.exists_fillers
  rcases anchored.followAll_cases tree with ⟨directory, found⟩ | ⟨missing, free, lost⟩ |
    ⟨blocked, refused⟩
  · have behind : store.place path = store.followAll (store.aim path) fillers := by
      rw [place_eq, found]
      rfl
    have followed := followAll_fillers store (store.aim path) fill
    rw [← behind] at followed
    cases there : store.entry? (store.aim path) with
    | none =>
      refine .inl ⟨not_blocked_of_missing (tree.not_blocked directory) there, .error .notFound,
        store, ?_, .inr rfl, emptied_of_missing tree there⟩
      rcases followed with done | ⟨_, lost⟩ | ⟨contents, file, _⟩
      · simp only [removeDirectories, done, there]
      · simp only [removeDirectories, lost]
      · rw [there] at file
        cases file
    | some entry =>
      cases entry with
      | file contents =>
        refine .inr ⟨⟨_, contents, prefix_rfl, there⟩, .notDirectory, by decide, ?_⟩
        rcases followed with done | ⟨missing, _⟩ | ⟨_, _, refused⟩
        · simp only [removeDirectories, done, there]
        · rw [there] at missing
          cases missing
        · simp only [removeDirectories, refused]
      | directory =>
        have is := hasDirectory_iff.mpr there
        have last_ne : (Text.splitOn '/' path.text).getLast? ≠ some ".." := by
          rw [ending]
          exact fun same => getLastD_fillers_ne anchored.down named fill (Option.some.inj same)
        refine .inl ⟨tree.not_blocked is, .ok (),
          { store with entries := withoutBelow (store.aim path) store.entries }, ?_, .inl rfl,
          rfl, entry?_withoutBelow store below⟩
        rcases followed with done | ⟨missing, _⟩ | ⟨_, file, _⟩
        · simp only [removeDirectories, done, there]
        · rw [there] at missing
          cases missing
        · rw [there] at file
          cases file
  · have nothing := tree.entry?_eq_none_of_parent below missing
    refine .inl ⟨not_blocked_of_missing free nothing, .error .notFound, store, ?_, .inr rfl,
      emptied_of_missing tree nothing⟩
    simp only [removeDirectories, place_eq, lost, bind, Except.bind]
  · refine .inr ⟨blocked_of_dropLast blocked, .notDirectory, by decide, ?_⟩
    simp only [removeDirectories, place_eq, refused, bind, Except.bind]

end Haxify.Files.Store
