import Haxify.Proofs.PathSteps

/-!
# Normalizing paths

Normalizing goes through the components of a path with those found so far. What it finds are
names, under them at most one parent, and the root if the path starts there. So a normalized
path is found again as it is, and only what was found matters for the components behind it.

A parent takes away a parent found before, though two of them lead up by two directories. A
relative path therefore denotes the same place after normalizing exactly if it leads up by at
most one.
-/

namespace Haxify.Path

open List

variable {next : Component}

def IsStep : Component → Prop
  | .parent => True
  | .name text => Plain text
  | _ => False

def moves (path : Path) : List Component := (Text.splitOn '/' path.text).filterMap ofPiece

/-- What is found of a path before its first step: the root, or nothing. -/
def origin (path : Path) : List Component := if path.isAbsolute then [.root] else []

/-- What normalizing finds of a path, last component first. -/
def course (path : Path) : List Component := path.components.foldl resolve []

section Components

variable {path base tail : Path}

theorem isStep_of_mem_moves {component : Component} (member : component ∈ path.moves) :
    IsStep component := by
  obtain ⟨piece, listed, stands⟩ := mem_filterMap.mp member
  rw [ofPiece] at stands
  split at stands
  · cases stands
  rename_i written
  split at stands
  · cases stands
    trivial
  · rename_i named
    cases stands
    simp only [isFiller, Bool.or_eq_true, beq_iff_eq, not_or] at written
    exact ⟨written.1, written.2, by simpa using named,
      fun slash => (Text.mem_of_mem_splitOn listed slash).2 rfl⟩

theorem map_text_moves (path : Path) : path.moves.map Component.text = path.steps := by
  have text_ofPiece (piece : String) :
      (ofPiece piece).map Component.text = if isFiller piece then none else some piece := by
    rw [ofPiece]
    split
    · rfl
    split
    · rename_i dots
      rw [beq_iff_eq.mp dots]
      rfl
    · rfl
  rw [moves, map_filterMap, funext text_ofPiece, steps, ← filterMap_eq_filter]
  refine filterMap_congr fun piece _ => ?_
  by_cases fills : isFiller piece <;> simp [Option.guard, fills]

theorem moves_eq (path : Path) : path.moves = path.steps.filterMap ofPiece := by
  rw [moves, steps, filterMap_filter]
  refine filterMap_congr fun piece _ => ?_
  by_cases fills : isFiller piece <;> simp [ofPiece, fills]

theorem moves_join (relative : tail.isAbsolute = false) :
    (base.join tail).moves = base.moves ++ tail.moves := by
  rw [moves_eq, steps_join, relative, if_neg Bool.false_ne_true, filterMap_append, ← moves_eq,
    ← moves_eq]

theorem components_of_isAbsolute (absolute : path.isAbsolute) :
    path.components = .root :: path.moves := by
  rw [components, leadComponents, (isAbsolute_iff_lead path).mp absolute]
  rfl

theorem components_of_relative (relative : path.isAbsolute = false) :
    path.components = path.moves ∨ path.components = .current :: path.moves := by
  have start := mt (isAbsolute_iff_lead path).mpr (by simp [relative])
  rw [components, leadComponents, moves]
  generalize lead_eq : lead (Text.splitOn '/' path.text) = pieces at start
  unfold lead at lead_eq
  split at lead_eq
  · exact absurd lead_eq.symm start
  · exact .inr (by rw [← lead_eq]; rfl)
  · exact .inl (by rw [← lead_eq]; rfl)

theorem steps_of_isAbsolute (absolute : path.isAbsolute) :
    path.steps = (path.components.drop 1).map Component.text := by
  rw [components_of_isAbsolute absolute, drop_one, tail_cons, map_text_moves]

theorem isAbsolute_iff_mem : path.isAbsolute ↔ .root ∈ path.components := by
  constructor
  · intro absolute
    rw [components_of_isAbsolute absolute]
    exact .head _
  · intro member
    by_contra relative
    have inside : .root ∈ path.moves := by
      rcases components_of_relative (by simpa using relative) with only | dot
      · exact only ▸ member
      · simpa [dot] using member
    exact isStep_of_mem_moves inside

theorem foldl_components (relative : path.isAbsolute = false) (done : List Component) :
    path.components.foldl resolve done = path.moves.foldl resolve done := by
  rcases components_of_relative relative with only | dot
  · rw [only]
  · rw [dot]
    rfl

theorem course_eq (path : Path) : path.course = path.moves.foldl resolve path.origin := by
  cases absolute : path.isAbsolute with
  | true =>
    rw [course, components_of_isAbsolute absolute, origin, if_pos absolute]
    rfl
  | false => rw [course, foldl_components absolute, origin, absolute, if_neg Bool.false_ne_true]

theorem course_join (relative : tail.isAbsolute = false) :
    (base.join tail).course = tail.components.foldl resolve base.course := by
  rw [course_eq, moves_join relative, foldl_append, foldl_components relative, course_eq base,
    origin, isAbsolute_join, relative, Bool.false_or]
  rfl

end Components

section Found

variable {start done : List Component} {path : Path}

/-- What normalizing may have found so far, last component first: names, under them at most one
parent, and what the path starts with. -/
inductive Resolved (start : List Component) : List Component → Prop
  | start : Resolved start start
  | above : Resolved start (.parent :: start)
  | name {text : String} {done : List Component} (plain : Plain text)
      (resolved : Resolved start done) : Resolved start (.name text :: done)

theorem Resolved.resolve (resolved : Resolved path.origin done)
    (step : IsStep next) : Resolved path.origin (resolve done next) := by
  cases next with
  | root | current => exact step.elim
  | name text => exact .name step resolved
  | parent =>
    cases resolved with
    | start =>
      have same : Path.resolve path.origin .parent = .parent :: path.origin := by
        rw [origin]
        split <;> rfl
      rw [same]
      exact .above
    | above => exact .start
    | name plain resolved => exact resolved

theorem resolved_course (path : Path) : Resolved path.origin path.course := by
  rw [course_eq]
  exact foldlRecOn path.moves _ .start fun _ resolved _ member =>
    resolved.resolve (isStep_of_mem_moves member)

theorem Resolved.exists_names (resolved : Resolved start done) :
    ∃ names : List String, (∀ name ∈ names, Plain name) ∧
      (done = names.map .name ++ start ∨ done = names.map .name ++ .parent :: start) := by
  induction resolved with
  | start => exact ⟨[], by simp, .inl rfl⟩
  | above => exact ⟨[], by simp, .inr rfl⟩
  | @name text done plain _ names_of =>
    obtain ⟨names, plains, whole⟩ := names_of
    refine ⟨text :: names, forall_mem_cons.mpr ⟨plain, plains⟩, ?_⟩
    rcases whole with rfl | rfl
    · exact .inl rfl
    · exact .inr rfl

theorem ofComponents_concat (components : List Component) (last : Component) :
    ofComponents (components ++ [last]) = (ofComponents components).join ⟨last.text⟩ := by
  rw [ofComponents, foldl_append]
  rfl

theorem components_normalize (path : Path) : path.normalize.components = path.course.reverse := by
  have from_start (done : List Component) (resolved : Resolved path.origin done) :
      (ofComponents done.reverse).components = done.reverse := by
    induction resolved with
    | start | above =>
      rw [origin]
      split <;> rfl
    | name plain _ before =>
      rw [reverse_cons, ofComponents_concat]
      dsimp only [Component.text]
      rw [components_join _ plain, before]
  exact from_start _ (resolved_course path)

theorem course_normalize (path : Path) : path.normalize.course = path.course := by
  have from_start (done : List Component) (resolved : Resolved path.origin done) :
      done.reverse.foldl resolve [] = done := by
    induction resolved with
    | start | above =>
      rw [origin]
      split <;> rfl
    | name plain _ before =>
      rw [reverse_cons, foldl_append, before]
      rfl
  rw [course, components_normalize, from_start _ (resolved_course path)]

theorem normalize_eq_of_course {first second : Path} (same : first.course = second.course) :
    first.normalize = second.normalize :=
  congrArg (fun done : List Component => ofComponents done.reverse) same

theorem normalize_eq_iff {first second : Path} :
    first.normalize = second.normalize ↔ first.course = second.course :=
  ⟨fun same => by rw [← course_normalize, same, course_normalize], normalize_eq_of_course⟩

theorem normalize_normalize (path : Path) : path.normalize.normalize = path.normalize :=
  normalize_eq_of_course (course_normalize path)

theorem normalize_eq_of_components {first second : Path}
    (same : first.normalize.components = second.normalize.components) :
    first.normalize = second.normalize := by
  rw [components_normalize, components_normalize] at same
  exact normalize_eq_of_course (reverse_injective same)

theorem names_of_isAbsolute (absolute : path.isAbsolute) :
    ∃ names : List String, (∀ name ∈ names, Plain name) ∧
      (path.course.reverse = .root :: names.map .name ∨
        path.course.reverse = .root :: .parent :: names.map .name) := by
  obtain ⟨names, plain, found⟩ := (resolved_course path).exists_names
  refine ⟨names.reverse, by simpa using plain, ?_⟩
  rw [origin, if_pos absolute] at found
  rcases found with found | found
  · exact .inl (by simp [found])
  · exact .inr (by simp [found])

end Found

/-- Where a relative path leads: some directories up, and from there along some names. -/
structure Trail where
  /-- The number of directories. -/
  up : Nat
  /-- The names, last first. -/
  names : List String
deriving DecidableEq

namespace Trail

def follow (trail : Trail) : Component → Trail
  | .parent =>
    match trail.names with
    | [] => ⟨trail.up + 1, []⟩
    | _ :: above => ⟨trail.up, above⟩
  | .name text => ⟨trail.up, text :: trail.names⟩
  | _ => trail

/-- What normalizing makes of a trail: of the directories up, only their parity is left. -/
def found (trail : Trail) : List Component :=
  trail.names.map .name ++ if trail.up % 2 = 1 then [.parent] else []

/-- Where a trail leads from a directory, given by its names, last first. -/
def below (directory : List String) (trail : Trail) : List Component :=
  (trail.names ++ directory.drop trail.up).map .name ++ [.root]

variable {moves : List Component} {directory : List String}

theorem resolve_found (trail : Trail) (step : IsStep next) :
    resolve trail.found next = (trail.follow next).found := by
  obtain ⟨up, names⟩ := trail
  cases next with
  | root | current => exact step.elim
  | name text => rfl
  | parent =>
    cases names with
    | cons last above => rfl
    | nil =>
      rcases Nat.mod_two_eq_zero_or_one up with even | odd
      · simp [found, follow, even, Nat.add_mod, Path.resolve]
      · simp [found, follow, odd, Nat.add_mod, Path.resolve]

theorem foldl_resolve_found (steps : ∀ component ∈ moves, IsStep component) (trail : Trail) :
    moves.foldl resolve trail.found = (moves.foldl follow trail).found := by
  induction moves generalizing trail with
  | nil => rfl
  | cons next rest rest_found =>
    rw [foldl_cons, resolve_found trail (steps next (.head _)),
      rest_found fun component member => steps component (.tail _ member)]
    rfl

theorem resolve_below (trail : Trail) (step : IsStep next)
    (room : trail.up + [next].count .parent ≤ directory.length) :
    resolve (trail.below directory) next = (trail.follow next).below directory := by
  obtain ⟨up, names⟩ := trail
  cases next with
  | root | current => exact step.elim
  | name text => rfl
  | parent =>
    cases names with
    | cons last above => rfl
    | nil =>
      have inside : up < directory.length := room
      have cut := drop_eq_getElem_cons inside
      change Path.resolve ((directory.drop up).map .name ++ [.root]) .parent =
        (directory.drop (up + 1)).map .name ++ [.root]
      rw [cut]
      rfl

theorem up_follow_le (trail : Trail) (next : Component) :
    (trail.follow next).up ≤ trail.up + [next].count .parent := by
  obtain ⟨up, names⟩ := trail
  cases next with
  | parent => cases names <;> simp [follow]
  | _ => exact Nat.le_refl up

theorem foldl_resolve_below (steps : ∀ component ∈ moves, IsStep component) (trail : Trail)
    (room : trail.up + moves.count .parent ≤ directory.length) :
    moves.foldl resolve (trail.below directory) = (moves.foldl follow trail).below directory ∧
      (moves.foldl follow trail).up ≤ directory.length := by
  induction moves generalizing trail with
  | nil => exact ⟨rfl, room⟩
  | cons next rest rest_below =>
    have counted : ([next] ++ rest).count .parent = [next].count .parent + rest.count .parent :=
      count_append
    rw [singleton_append] at counted
    have small := up_follow_le trail next
    rw [foldl_cons, foldl_cons, resolve_below trail (steps next (.head _)) (by omega)]
    exact rest_below (fun component member => steps component (.tail _ member)) _ (by omega)

theorem foldl_follow_found (trail : Trail) :
    trail.found.reverse.foldl follow ⟨0, []⟩ = ⟨trail.up % 2, trail.names⟩ := by
  obtain ⟨up, names⟩ := trail
  induction names with
  | nil => rcases Nat.mod_two_eq_zero_or_one up with even | odd <;> simp [found, follow, *]
  | cons last above above_found =>
    have split : (found ⟨up, last :: above⟩).reverse = (found ⟨up, above⟩).reverse ++
        [.name last] :=
      reverse_cons
    rw [split, foldl_append, above_found]
    rfl

end Trail

/-- Where a relative path leads. -/
def trail (path : Path) : Trail := path.components.foldl Trail.follow ⟨0, []⟩

section Places

variable {path directory : Path}

theorem trail_eq (relative : path.isAbsolute = false) :
    path.trail = path.moves.foldl Trail.follow ⟨0, []⟩ := by
  rw [trail]
  rcases components_of_relative relative with only | dot
  · rw [only]
  · rw [dot]
    rfl

theorem course_of_relative (relative : path.isAbsolute = false) :
    path.course = path.trail.found := by
  rw [course, foldl_components relative, trail_eq relative]
  exact Trail.foldl_resolve_found (fun _ => isStep_of_mem_moves) ⟨0, []⟩

theorem isAbsolute_normalize (path : Path) : path.normalize.isAbsolute = path.isAbsolute := by
  rw [Bool.eq_iff_iff, isAbsolute_iff_mem, components_normalize, mem_reverse]
  cases absolute : path.isAbsolute with
  | true =>
    obtain ⟨names, _, found⟩ := (resolved_course path).exists_names
    rw [origin, if_pos absolute] at found
    rcases found with found | found <;> simp [found]
  | false =>
    rw [course_of_relative absolute, Trail.found]
    split <;> simp

theorem parent_mem_steps_iff : ".." ∈ path.steps ↔ .parent ∈ path.moves := by
  rw [← map_text_moves]
  refine ⟨fun member => ?_, fun listed => mem_map_of_mem listed⟩
  obtain ⟨component, listed, dots⟩ := mem_map.mp member
  have step := isStep_of_mem_moves listed
  cases component with
  | parent => exact listed
  | name text => exact absurd dots step.ne_parent
  | root | current => exact step.elim

theorem course_of_names (absolute : path.isAbsolute) (down : ".." ∉ path.steps) :
    path.course = path.steps.reverse.map .name ++ [.root] := by
  have named : path.moves = path.steps.map .name := by
    rw [← map_text_moves, map_map]
    refine (map_id _).symm.trans (map_congr_left fun component member => ?_)
    have step := isStep_of_mem_moves member
    cases component with
    | name text => rfl
    | parent => exact absurd (parent_mem_steps_iff.mpr member) down
    | root | current => exact step.elim
  have pushed (names : List String) (done : List Component) :
      (names.map Component.name).foldl resolve done = names.reverse.map .name ++ done := by
    induction names generalizing done with
    | nil => rfl
    | cons name rest rest_pushed => simp [Path.resolve, rest_pushed]
  rw [course_eq, named, origin, if_pos absolute, pushed]

theorem course_join_of_names (absolute : directory.isAbsolute) (down : ".." ∉ directory.steps)
    (relative : path.isAbsolute = false)
    (deep : path.components.count .parent ≤ directory.steps.length) :
    (directory.join path).course = path.trail.below directory.steps.reverse ∧
      path.trail.up ≤ directory.steps.length := by
  have counted : path.moves.count .parent = path.components.count .parent := by
    rcases components_of_relative relative with only | dot
    · rw [only]
    · rw [dot]
      rfl
  have steps : ∀ component ∈ path.moves, IsStep component := fun _ => isStep_of_mem_moves
  have room : 0 + path.moves.count .parent ≤ directory.steps.reverse.length := by
    simpa [counted] using deep
  have followed := Trail.foldl_resolve_below steps ⟨0, []⟩ room
  rw [course_join relative, foldl_components relative, course_of_names absolute down,
    trail_eq relative]
  rwa [length_reverse] at followed

/-- A relative path denotes the same place after normalizing, seen from every directory that is
deep enough, exactly if it leads up by at most one directory. Normalizing twice changes nothing,
and normalizing a path first does not change what a relative path behind it leads to. -/
theorem normalize_keeps_place_iff (path : Path) :
    (path.isAbsolute = false → ∀ directory : Path, directory.isAbsolute →
      .parent ∉ directory.components →
      path.components.count .parent ≤ directory.components.length - 1 →
        ((directory.join path.normalize).normalize = (directory.join path).normalize ↔
          path.trail.up ≤ 1)) ∧
    path.normalize.normalize = path.normalize ∧
    ∀ tail : Path, tail.isAbsolute = false →
      (path.join tail).normalize = (path.normalize.join tail).normalize := by
  refine ⟨fun relative directory absolute down deep => ?_, ?_, fun tail relative => ?_⟩
  · have size : directory.steps.length = directory.components.length - 1 := by
      rw [steps_of_isAbsolute absolute, length_map, length_drop]
    rw [← size] at deep
    replace down : ".." ∉ directory.steps := fun dots => down (by
      rw [components_of_isAbsolute absolute]
      exact .tail _ (parent_mem_steps_iff.mp dots))
    obtain ⟨course, room⟩ := course_join_of_names absolute down relative deep
    have still : path.normalize.isAbsolute = false := (isAbsolute_normalize path).trans relative
    have found : path.normalize.components = path.trail.found.reverse := by
      rw [components_normalize, course_of_relative relative]
    have fewer : path.normalize.components.count .parent = path.trail.up % 2 := by
      rw [found, count_reverse, Trail.found, count_append]
      rcases Nat.mod_two_eq_zero_or_one path.trail.up with even | odd
      · simp [even, count_eq_zero]
      · simp [odd, count_eq_zero]
    obtain ⟨settled, _⟩ := course_join_of_names absolute down still
      (by rw [fewer]; exact (Nat.mod_le _ _).trans room)
    have trail : path.normalize.trail = ⟨path.trail.up % 2, path.trail.names⟩ := by
      rw [Path.trail, found, Trail.foldl_follow_found]
    rw [normalize_eq_iff, course, settled, trail]
    constructor
    · intro same
      have lengths := congrArg List.length same
      simp only [Trail.below, length_append, length_map, length_drop,
        length_reverse, length_singleton] at lengths
      omega
    · intro low
      rw [Nat.mod_eq_of_lt (by omega : path.trail.up < 2)]
  · exact normalize_normalize path
  · refine normalize_eq_of_course ?_
    rw [course_join relative, course_join relative, course_normalize]

/-- A path that leads up by one directory, seen from a directory with two names. -/
theorem one_up_keeps_place :
    ((⟨"/a/b"⟩ : Path).join (normalize ⟨"./x/../../y"⟩)).normalize =
      ((⟨"/a/b"⟩ : Path).join ⟨"./x/../../y"⟩).normalize :=
  ((normalize_keeps_place_iff ⟨"./x/../../y"⟩).1 (by decide) ⟨"/a/b"⟩ (by decide) (by decide)
    (by decide)).mpr (by decide)

/-- A path that leads up by two directories is normalized to one that leads nowhere. -/
theorem two_up_is_lost :
    normalize ⟨"../.."⟩ = ⟨""⟩ ∧
      ((⟨"/a/b"⟩ : Path).join (normalize ⟨"../.."⟩)).normalize ≠
        ((⟨"/a/b"⟩ : Path).join ⟨"../.."⟩).normalize := by decide

end Places

end Haxify.Path
