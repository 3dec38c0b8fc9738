import Haxify.Proofs.Loading

/-!
# Relative specifiers

A relative specifier is followed from the directory of the importing file. If it leads to the
path of a file of the program, it is resolved to that file; so it is if it leads to the script
that the file is compiled to, or to the path without the ending `.ts`. No specifier leads to a
name of one or two dots, so files named `..ts` and `...ts` cannot be imported without the ending.
-/

namespace Haxify

open List
open Text (endsIn beginsWith lowerCase)

namespace Text

theorem endsIn_append {text ending other : String} (shorter : other.length ≤ ending.length) :
    endsIn (text ++ ending) other = endsIn ending other := by
  rw [Bool.eq_iff_iff, endsIn, endsIn, isSuffixOf_iff_suffix, isSuffixOf_iff_suffix,
    String.toList_append]
  constructor
  · intro inside
    exact suffix_of_suffix_length_le inside (suffix_append _ _) shorter
  · exact fun inside => inside.trans (suffix_append _ _)

end Text

namespace Path

variable {names : List String} {name : String}

def ofNames (names : List String) : Path := ofComponents (.root :: names.map .name)

section Names

variable {path : Path} {last : String}

theorem getLast?_body (path : Path) : path.body.getLast? = path.steps.getLast? := by
  rw [steps_eq_body]
  rcases dropFillers_eq_nil_or
    ((Text.splitOn '/' path.text).drop (lead (Text.splitOn '/' path.text)).length) with
    none | ⟨front, last, whole, step⟩
  · have empty : path.body = [] := none
    simp [empty]
  · have ending : path.body = front ++ [last] := whole
    simp [ending, step]

theorem fileName?_eq (cut : path.steps = names ++ [last]) (named : last ≠ "..") :
    path.fileName? = some last := by
  rw [fileName?, getLast?_body, cut, getLast?_concat]
  simp [named]

theorem exists_steps_of_fileName? (found : path.fileName? = some name) :
    ∃ names, path.steps = names ++ [name] := by
  rw [fileName?, getLast?_body, Option.filter_eq_some_iff] at found
  exact ⟨_, (dropLast_append_getLast? name found.1).symm⟩

theorem eq_ofNames (normal : path.normalize = path) (absolute : path.isAbsolute)
    (down : ".." ∉ path.steps) : path = ofNames path.steps := by
  have found : path.normalize = ofComponents path.course.reverse := rfl
  rw [course_of_names absolute down, normal] at found
  simpa [ofNames] using found

theorem Plain.steps_eq (plain : Plain name) : (⟨name⟩ : Path).steps = [name] := by
  rw [steps, Text.splitOn_of_not_mem plain.no_slash]
  simp [isFiller, plain.ne_empty, plain.ne_current]

theorem isAbsolute_ofNames (names : List String) (plain : ∀ name ∈ names, Plain name) :
    (ofNames names).isAbsolute ∧ (ofNames names).steps = names := by
  have behind (base : Path) (absolute : base.isAbsolute) :
      (names.foldl (fun path name => path.join ⟨name⟩) base).isAbsolute ∧
        (names.foldl (fun path name => path.join ⟨name⟩) base).steps = base.steps ++ names := by
    induction names generalizing base with
    | nil => exact ⟨absolute, (append_nil _).symm⟩
    | cons name rest rest_behind =>
      obtain ⟨named, others⟩ := forall_mem_cons.mp plain
      have relative := isAbsolute_of_no_slash named.no_slash
      have joined :=
        rest_behind others (base.join ⟨name⟩) (by rw [isAbsolute_join, absolute, Bool.or_true])
      rw [steps_join, relative, if_neg Bool.false_ne_true, named.steps_eq, append_assoc] at joined
      exact joined
  have same : ofNames names = names.foldl (fun path name => path.join ⟨name⟩) ⟨"/"⟩ := by
    rw [ofNames, ofComponents, foldl_cons, foldl_map]
    rfl
  rw [same]
  exact behind ⟨"/"⟩ rfl

theorem exists_text_ofNames (plain : ∀ name ∈ names, Plain name) : ∃ front : String,
    endsIn front "/" ∧ ∀ last : String, '/' ∉ last.toList →
      ofNames (names ++ [last]) = ⟨front ++ last⟩ := by
  have absolute := (isAbsolute_ofNames names plain).1
  have written : (ofNames names).text ≠ "" := by
    intro empty
    rw [isAbsolute, empty] at absolute
    cases absolute
  have joined (last : String) : ofNames (names ++ [last]) = (ofNames names).join ⟨last⟩ := by
    rw [ofNames, map_append, ← cons_append]
    exact ofComponents_concat _ _
  by_cases slash : endsIn (ofNames names).text "/"
  · refine ⟨(ofNames names).text, slash, fun last apart => ?_⟩
    rw [joined, join, isAbsolute_of_no_slash apart, if_neg Bool.false_ne_true, slash, Bool.or_true,
      if_pos rfl]
  · refine ⟨(ofNames names).text ++ "/", (Text.endsIn_append (Nat.le_refl _)).trans rfl,
      fun last apart => ?_⟩
    rw [joined, join, isAbsolute_of_no_slash apart, if_neg Bool.false_ne_true, if_neg]
    simpa [slash] using written

end Names

section Following

/-- The place that a component leads to from a place, given by its names, last first. Nothing
lies above the root. -/
def step? (place : List String) : Component → Option (List String)
  | .parent => place.head?.map fun _ => place.tail
  | .name text => some (text :: place)
  | .current => some place
  | .root => none

/-- Whether a specifier starts with a dot or two and a slash and leads from the directory of a
path to a place below the root. -/
def Leads (source : Path) (specifier : String) (names : List String) : Prop :=
  (beginsWith specifier "./" ∨ beginsWith specifier "../") ∧
    (components ⟨specifier⟩).foldlM step? source.steps.dropLast.reverse = some names.reverse

variable {source : Path} {specifier : String}

theorem foldl_resolve_of_step? {moves : List Component} {place found : List String}
    (leads : moves.foldlM step? place = some found) :
    moves.foldl resolve (place.map .name ++ [.root]) = found.map .name ++ [.root] ∧
      ∀ name ∈ found, name ∈ place ∨ .name name ∈ moves := by
  induction moves generalizing place with
  | nil =>
    obtain rfl : place = found := Option.some.inj leads
    exact ⟨rfl, fun _ => .inl⟩
  | cons next rest rest_found =>
    rw [foldlM_cons] at leads
    obtain ⟨middle, here, behind⟩ := Option.bind_eq_some_iff.mp leads
    obtain ⟨found_eq, origin⟩ := rest_found behind
    rw [foldl_cons, ← found_eq]
    suffices resolve (place.map .name ++ [.root]) next = middle.map .name ++ [.root] ∧
        ∀ name ∈ middle, name ∈ place ∨ .name name ∈ next :: rest from
      ⟨by rw [this.1], fun name member =>
        (origin name member).elim (this.2 name) (.inr <| .tail _ ·)⟩
    cases next with
    | root => cases here
    | current =>
      obtain rfl : place = middle := Option.some.inj here
      exact ⟨rfl, fun _ => .inl⟩
    | name text =>
      obtain rfl : text :: place = middle := Option.some.inj here
      exact ⟨rfl, forall_mem_cons.mpr ⟨.inr (.head _), fun _ => .inl⟩⟩
    | parent =>
      cases place with
      | nil => cases here
      | cons last above =>
        obtain rfl : above = middle := Option.some.inj here
        exact ⟨rfl, fun _ member => .inl (.tail _ member)⟩

theorem Leads.normalize_join (leads : Leads source specifier names) (absolute : source.isAbsolute)
    (plain : ∀ step ∈ source.steps, Plain step) (placed : source.steps ≠ []) :
    (source.directory.join ⟨specifier⟩).normalize = ofNames names ∧ ∀ name ∈ names, Plain name := by
  obtain ⟨starts, leads⟩ := leads
  have relative : isAbsolute ⟨specifier⟩ = false := by
    rcases starts with starts | starts
    all_goals
      obtain ⟨rest, chars⟩ := isPrefixOf_iff_prefix.mp starts
      rw [isAbsolute, beginsWith, ← chars]
      rfl
  obtain ⟨found, origin⟩ := foldl_resolve_of_step? leads
  obtain ⟨above, parent, steps, same, _⟩ := parent_of_steps (dropLast_append_getLast placed).symm
  have directory : source.directory = above := by
    rw [directory, parent]
    rfl
  have down : ".." ∉ above.steps := by
    rw [steps]
    exact fun dots => (plain _ (dropLast_subset _ dots)).ne_parent rfl
  have course : (above.join ⟨specifier⟩).course = names.reverse.map .name ++ [.root] := by
    rw [course_join relative, course_of_names (same.trans absolute) down, steps, found]
  have spelled : (above.join ⟨specifier⟩).normalize =
      ofComponents (above.join ⟨specifier⟩).course.reverse := rfl
  refine ⟨by rw [directory, spelled, course, ofNames]; simp, fun name member => ?_⟩
  rcases origin name (mem_reverse.mpr member) with before | own
  · exact plain name (dropLast_subset _ (mem_reverse.mp before))
  · rcases components_of_relative relative with only | dot
    · exact isStep_of_mem_moves (only ▸ own)
    · rw [dot] at own
      exact isStep_of_mem_moves ((mem_cons.mp own).resolve_left (by simp))

end Following

end Path

namespace TypeScript.SourceKind

/-- The endings of the names of sources, in lower case. -/
def endings : List String := [".d.ts", ".d.mts", ".d.cts", ".tsx", ".ts", ".mts", ".cts"]

theorem endsIn_of_ofPath? {path : Path} (isSource : (ofPath? path).isSome) :
    ∃ name, path.fileName? = some name ∧ ∃ ending ∈ endings, endsIn (lowerCase name) ending := by
  obtain ⟨kind, found⟩ := Option.isSome_iff_exists.mp isSource
  obtain ⟨name, named, rule⟩ := Option.bind_eq_some_iff.mp found
  refine ⟨name, named, ?_⟩
  dsimp only at rule
  split at rule
  · rename_i declares
    obtain ⟨ending, listed, fits⟩ := any_eq_true.mp declares
    exact ⟨ending, mem_append_left [".tsx", ".ts", ".mts", ".cts"] listed, fits⟩
  split at rule
  · exact ⟨".tsx", by decide, ‹_›⟩
  split at rule
  · rename_i fit
    obtain ⟨ending, listed, fits⟩ := any_eq_true.mp fit
    exact ⟨ending, mem_append_right [".d.ts", ".d.mts", ".d.cts", ".tsx"] listed, fits⟩
  · cases rule

end TypeScript.SourceKind

namespace Program

open TypeScript.SourceKind (ofPath? endings endsIn_of_ofPath?)

variable {front name : String}
variable {file : SourceFile}
variable {program : Program} {text : String} {path : Path}

section Candidates

/-- Whether a specifier ends like a script. -/
def isScript (text : String) : Bool := scriptEndings.any fun entry => endsIn text entry.1

theorem candidates_script {entry : String × List String} (listed : entry ∈ scriptEndings) :
    candidates ⟨text ++ entry.1⟩ = entry.2.map fun source => ⟨text ++ source⟩ := by
  have first : scriptEndings.find? (fun other => endsIn (text ++ entry.1) other.1) =
      some entry := by
    simp only [scriptEndings, mem_cons, not_mem_nil, or_false] at listed
    rcases listed with rfl | rfl | rfl | rfl
    all_goals
      rw [scriptEndings]
      repeat rw [find?_cons_of_neg (by rw [Text.endsIn_append (by decide)]; decide)]
      rw [find?_cons_of_pos (by rw [Text.endsIn_append (by decide)]; decide)]
  have shortened : dropEnding (text ++ entry.1) entry.1 = text := by
    rw [dropEnding, String.length_append, Nat.add_sub_cancel, String.toList_append,
      ← String.length_toList, take_left, String.ofList_toList]
  rw [candidates]
  split
  · rename_i ending endings found
    obtain rfl : entry = (ending, endings) := Option.some.inj (first.symm.trans found)
    rw [shortened]
  · rename_i none
    exact absurd (first.symm.trans none) (Option.some_ne_none _)

theorem candidates_of_not_isScript (plain : isScript path.text = false) : candidates path =
    if (ofPath? path).isSome then [path]
    else [".ts", ".tsx", ".d.ts"].map (fun ending => ⟨path.text ++ ending⟩)
      ++ ["index.ts", "index.tsx", "index.d.ts"].map fun name => path.join ⟨name⟩ := by
  rw [candidates]
  split
  · rename_i ending endings found
    have fits := find?_some found
    have listed := mem_of_find?_eq_some found
    have script : isScript path.text := any_eq_true.mpr ⟨_, listed, fits⟩
    exact absurd (plain.symm.trans script) Bool.false_ne_true
  · rfl

theorem isScript_of_source {ending : String} (listed : ending ∈ endings)
    (fits : endsIn (lowerCase name) ending) : isScript (front ++ name) = false := by
  rw [isScript, Bool.eq_false_iff]
  intro script
  obtain ⟨entry, member, ends⟩ := any_eq_true.mp script
  have apart : ∀ entry ∈ scriptEndings, ∀ ending ∈ endings,
      endsIn entry.1 ending = false ∧ endsIn ending entry.1 = false ∧
        entry.1.toList.map Char.toLower = entry.1.toList := by decide
  obtain ⟨notBelow, notAbove, lower⟩ := apart entry member ending listed
  have small : entry.1.toList <:+ (front ++ name).toList.map Char.toLower := by
    rw [← lower]
    exact (isSuffixOf_iff_suffix.mp ends).map _
  have own : ending.toList <:+ (front ++ name).toList.map Char.toLower := by
    have inside := isSuffixOf_iff_suffix.mp fits
    rw [lowerCase, String.toList_ofList] at inside
    rw [String.toList_append, map_append]
    exact inside.trans (suffix_append _ _)
  rcases suffix_or_suffix_of_suffix own small with below | above
  · exact Bool.false_ne_true (notBelow.symm.trans (isSuffixOf_iff_suffix.mpr below))
  · exact Bool.false_ne_true (notAbove.symm.trans (isSuffixOf_iff_suffix.mpr above))

theorem isScript_append (slash : endsIn front "/") : isScript (front ++ name) = isScript name := by
  rw [isScript, isScript, Bool.eq_iff_iff, any_eq_true, any_eq_true]
  refine exists_congr fun entry => and_congr_right fun member => ?_
  have clear : ∀ entry ∈ scriptEndings, '/' ∉ entry.1.toList := by decide
  rw [endsIn, endsIn, isSuffixOf_iff_suffix, isSuffixOf_iff_suffix, String.toList_append]
  refine ⟨?_, fun inside => inside.trans (suffix_append _ _)⟩
  rintro ⟨before, whole⟩
  rcases append_eq_append_iff.mp whole with ⟨between, cut, ends⟩ | ⟨between, _, ends⟩
  · rcases between.eq_nil_or_concat with rfl | ⟨others, last, rfl⟩
    · exact ⟨[], ends⟩
    · -- The ending would have the slash in front of the name in it.
      have inside : ['/'] <:+ others.concat last := suffix_of_suffix_length_le
        (isSuffixOf_iff_suffix.mp slash) ⟨before, cut.symm⟩ (by simp)
      refine absurd ?_ (clear entry member)
      rw [ends]
      exact mem_append_left _ (inside.subset (.head _))
  · exact ⟨between, ends.symm⟩

end Candidates

section Files

variable {source target : SourceFile} {index : Nat} {specifier : String}

theorem ne_of_findFrom_eq_none {start : Nat} {files : List SourceFile}
    (none : findFrom path start files = none) : ∀ file ∈ files, file.path ≠ path := by
  induction files generalizing start with
  | nil => simp
  | cons first rest rest_ne =>
    rw [findFrom, Option.or_eq_none_iff] at none
    refine forall_mem_cons.mpr ⟨fun same => ?_, rest_ne none.1⟩
    rw [if_pos same] at none
    cases none.2

/-- The program was put together from given sources or loaded from a store. -/
def IsBuilt (program : Program) : Prop :=
  (∃ grammar root basePackage sources, ofSources grammar root basePackage sources = .ok program) ∨
    ∃ grammar store config basePackage, load grammar store config basePackage = .ok program

theorem IsBuilt.path_eq (built : program.IsBuilt) (listed : file ∈ program.files) :
    file.path.normalize = file.path ∧ (ofPath? file.path).isSome := by
  have assembled {grammar : Grammar} {root : Path} {basePackage : String}
      {sources : List (Path × String)} {other : Program}
      (run : assemble grammar root basePackage sources = .ok other) (listed : file ∈ other.files)
      (normal : ∀ item ∈ sources, item.1.normalize = item.1) :
      file.path.normalize = file.path ∧ (ofPath? file.path).isSome := by
    have taken : (file.path, file.source) ∈ other.files.map fun file => (file.path, file.source) :=
      mem_map_of_mem listed
    rw [files_of_assemble run] at taken
    obtain ⟨member, isSource⟩ := mem_filter.mp taken
    have kept := normal (file.path, file.source) ((inOrder_perm sources).mem_iff.mp member)
    exact ⟨kept, isSource⟩
  rcases built with ⟨grammar, root, basePackage, sources, run⟩ |
    ⟨grammar, store, config, basePackage, run⟩
  · have put : assemble grammar root.normalize basePackage (placed root sources) = .ok program :=
      run
    refine assembled put listed fun item member => ?_
    obtain ⟨written, _, same⟩ := mem_map.mp member
    rw [← same]
    exact Path.normalize_normalize _
  · obtain ⟨settings, paths, sources, other, _, found, _, same, put, rfl⟩ := load_eq_ok run
    refine assembled put listed fun item member => ?_
    have among : item.1 ∈ paths := same ▸ mem_map_of_mem member
    obtain ⟨_, _, _, path_eq⟩ := Discovery.exists_of_discover found among
    rw [path_eq]
    exact Path.normalize_normalize _

theorem resolveFrom_of_candidates {names : List String}
    (leads : Path.Leads path specifier names)
    (joined : (path.directory.join ⟨specifier⟩).normalize = .ofNames names)
    (first : (candidates (.ofNames names)).head? = some target.path)
    (found : program.findPath target.path = some index) :
    program.resolveFrom path specifier = .project index := by
  have relative : isRelativeSpecifier specifier := by
    rcases leads.1 with starts | starts <;> simp [isRelativeSpecifier, starts]
  obtain ⟨rest, order⟩ := head?_eq_some_iff.mp first
  rw [resolveFrom, if_pos relative, joined, order, findSome?_cons, found]

theorem IsBuilt.plain (built : program.IsBuilt) (listed : file ∈ program.files)
    (absolute : file.path.isAbsolute) (down : .parent ∉ file.path.components) :
    file.path = .ofNames file.path.steps ∧ ∀ step ∈ file.path.steps, Path.Plain step := by
  have clear : ".." ∉ file.path.steps := fun dots => down (by
    rw [Path.components_of_isAbsolute absolute]
    exact .tail _ (Path.parent_mem_steps_iff.mp dots))
  refine ⟨Path.eq_ofNames (built.path_eq listed).1 absolute clear, fun step member => ?_⟩
  obtain ⟨piece, written⟩ := mem_filter.mp member
  simp only [Path.isFiller, Bool.not_eq_true', Bool.or_eq_false_iff, beq_eq_false_iff_ne] at written
  exact ⟨written.1, written.2, fun dots => clear (dots ▸ member),
    Path.slash_not_mem_of_mem_splitOn piece⟩

/-- The endings of sources with those of the scripts they are compiled to. -/
def compiledEndings : List (String × String) :=
  [(".ts", ".js"), (".tsx", ".jsx"), (".mts", ".mjs"), (".cts", ".cjs")]

/-- A relative specifier that leads from a file of a program to another one is resolved to that
file; so is one that leads to its script, and one that leads to the path without the ending `.ts`
if what is left is neither the name of a source nor that of a script. A specifier is only resolved
to a file whose path is the first of the candidates that is in the program. -/
theorem files_are_imported_by_path (built : program.IsBuilt)
    (absolute : ∀ file ∈ program.files, file.path.isAbsolute)
    (down : ∀ file ∈ program.files, .parent ∉ file.path.components)
    (distinct : (program.files.map (·.path)).Nodup) :
    (∀ source ∈ program.files, ∀ index target, program.files[index]? = some target →
      ∀ specifier folder name, target.path.steps = folder ++ [name] →
        (Path.Leads source.path specifier (folder ++ [name]) →
          program.resolveFrom source.path specifier = .project index) ∧
        (∀ base, ∀ endings ∈ compiledEndings, name = base ++ endings.1 →
          Path.Leads source.path specifier (folder ++ [base ++ endings.2]) →
            program.resolveFrom source.path specifier = .project index) ∧
        ∀ base, name = base ++ ".ts" → isScript base = false → ofPath? ⟨base⟩ = none →
          Path.Leads source.path specifier (folder ++ [base]) →
            program.resolveFrom source.path specifier = .project index) ∧
    ∀ path specifier index, program.resolveFrom path specifier = .project index →
      ∃ before target after, program.files[index]? = some target ∧
        candidates (path.directory.join ⟨specifier⟩).normalize = before ++ target.path :: after ∧
        ∀ candidate ∈ before, ∀ file ∈ program.files, file.path ≠ candidate := by
  refine ⟨fun source listed index target indexed specifier folder name cut => ?_,
    fun path specifier index found => ?_⟩
  · have inside := mem_of_getElem? indexed
    have found : program.findPath target.path = some index := by
      rw [findPath, findFrom_of_nodup distinct indexed 0, Nat.zero_add]
    obtain ⟨_, here⟩ := built.plain listed (absolute _ listed) (down _ listed)
    obtain ⟨there, plain⟩ := built.plain inside (absolute _ inside) (down _ inside)
    obtain ⟨_, named, _⟩ := endsIn_of_ofPath? (built.path_eq listed).2
    obtain ⟨_, steps⟩ := Path.exists_steps_of_fileName? named
    have joined {names : List String} (leads : Path.Leads source.path specifier names) :=
      leads.normalize_join (absolute _ listed) here (by simp [steps])
    rw [cut] at there plain
    obtain ⟨front, slash, text⟩ := Path.exists_text_ofNames
      fun step member => plain step (mem_append_left [name] member)
    rw [text name (plain name (by simp)).no_slash] at there
    refine ⟨fun leads => ?_, fun base endings member same leads => ?_,
      fun base same notScript notSource leads => ?_⟩
    · obtain ⟨last, lastName, ending, isEnding, fits⟩ :=
        endsIn_of_ofPath? (built.path_eq inside).2
      rw [Path.fileName?_eq cut (plain name (by simp)).ne_parent] at lastName
      cases lastName
      refine resolveFrom_of_candidates leads (joined leads).1 ?_ found
      rw [text name (plain name (by simp)).no_slash, candidates_of_not_isScript
        (isScript_of_source isEnding fits), ← there, if_pos (built.path_eq inside).2]
      rfl
    · have known : ∀ endings ∈ compiledEndings, scriptEndings.any fun entry =>
          entry.1 == endings.2 && entry.2.head? == some endings.1 := by decide
      obtain ⟨entry, script, fits⟩ := any_eq_true.mp (known endings member)
      rw [Bool.and_eq_true, beq_iff_eq, beq_iff_eq] at fits
      refine resolveFrom_of_candidates leads (joined leads).1 ?_ found
      rw [text _ ((joined leads).2 _ (by simp)).no_slash, ← String.append_assoc, ← fits.1,
        candidates_script script, head?_map, fits.2, there, same, Option.map_some,
        String.append_assoc]
    · have bare := (joined leads).2 base (by simp)
      have unknown : ofPath? (.ofNames (folder ++ [base])) = none := by
        rw [← notSource, ofPath?, ofPath?,
          Path.fileName?_eq (Path.isAbsolute_ofNames _ (joined leads).2).2 bare.ne_parent,
          Path.fileName?_eq (bare.steps_eq.trans (nil_append _).symm) bare.ne_parent]
      refine resolveFrom_of_candidates leads (joined leads).1 ?_ found
      rw [candidates_of_not_isScript, unknown]
      · rw [there, same, text _ bare.no_slash, ← String.append_assoc]
        rfl
      · rw [text _ bare.no_slash, isScript_append slash]
        exact notScript
  · rw [resolveFrom] at found
    split at found
    · split at found
      · rename_i other searched
        cases found
        obtain ⟨before, candidate, after, order, here, none⟩ := findSome?_eq_some_iff.mp searched
        obtain ⟨offset, target, same, indexed, rfl⟩ := exists_of_findFrom here
        rw [Nat.zero_add] at same
        exact ⟨before, target, after, same ▸ indexed, order,
          fun candidate member => ne_of_findFrom_eq_none (none candidate member)⟩
      · cases found
    · cases found

namespace Sample

def filesOf (sources : List (Path × String)) : Except ProjectError (List SourceFile) :=
  (placed ⟨"/p"⟩ sources).foldlM (fun files (item : Path × String) =>
    addSource noStatements (Path.normalize ⟨"/p"⟩) "app" files item.1 item.2) []

def programOf (sources : List (Path × String)) : Program :=
  ⟨none, Path.normalize ⟨"/p"⟩, "app", (filesOf sources).toOption.getD []⟩

theorem isBuilt_programOf {sources : List (Path × String)} (valid : (filesOf sources).isOk)
    (sorted : (placed ⟨"/p"⟩ sources).Pairwise fun left right => left.1.notAfter right.1) :
    (programOf sources).IsBuilt := by
  refine .inl ⟨noStatements, ⟨"/p"⟩, "app", sources, ?_⟩
  change assemble noStatements (Path.normalize ⟨"/p"⟩) "app" (placed ⟨"/p"⟩ sources) = _
  rw [assemble_eq, inOrder, mergeSort_of_pairwise sorted]
  obtain ⟨files, run⟩ := Program.exists_eq_ok valid
  rw [filesOf] at run
  rw [run, programOf, filesOf, run]
  rfl

def pair : Program := programOf [(⟨"lib/main.ts"⟩, ""), (⟨"util.ts"⟩, "")]

def dotted : Program := programOf [(⟨"..ts"⟩, ""), (⟨"main.ts"⟩, "")]

end Sample

open Sample

/-- A file is imported from another directory with the ending of its script. -/
theorem script_leads_to_source :
    Path.Leads ⟨"/p/lib/main.ts"⟩ "../util.js" ["p", "util.js"] ∧
      pair.resolveFrom ⟨"/p/lib/main.ts"⟩ "../util.js" = .project 1 := by
  have leads : Path.Leads ⟨"/p/lib/main.ts"⟩ "../util.js" ["p", "util.js"] := by
    unfold Path.Leads
    decide +kernel
  have paths : pair.files.map (·.path) = [⟨"/p/lib/main.ts"⟩, ⟨"/p/util.ts"⟩] := by
    decide +kernel
  have built : pair.IsBuilt := isBuilt_programOf (by decide +kernel) (by decide +kernel)
  have absolute : ∀ path ∈ pair.files.map (·.path), path.isAbsolute := by
    rw [paths]
    decide
  have down : ∀ path ∈ pair.files.map (·.path), .parent ∉ path.components := by
    rw [paths]
    decide
  have distinct : (pair.files.map (·.path)).Nodup := by
    rw [paths]
    decide
  refine ⟨leads, ?_⟩
  obtain ⟨source, listed, here⟩ : ∃ source ∈ pair.files, source.path = ⟨"/p/lib/main.ts"⟩ :=
    mem_map.mp (paths ▸ mem_cons_self)
  have second : (pair.files.map (·.path))[1]? = some ⟨"/p/util.ts"⟩ := by rw [paths]; rfl
  rw [getElem?_map] at second
  obtain ⟨target, indexed, there⟩ := Option.map_eq_some_iff.mp second
  have resolved := ((files_are_imported_by_path built
    (fun _ member => absolute _ (mem_map_of_mem member))
    (fun _ member => down _ (mem_map_of_mem member)) distinct).1 source listed 1 target indexed
      "../util.js" ["p"] "util.ts" (by rw [there]; decide)).2.1 "util" (".ts", ".js")
        (by decide) rfl
  rw [here] at resolved
  exact resolved leads

/-- A file whose name without its ending is a dot is not found without the ending. -/
theorem dotted_file_needs_its_ending :
    dotted.IsBuilt ∧
      dotted.files.map (·.path) = [⟨"/p/..ts"⟩, ⟨"/p/main.ts"⟩] ∧
      Path.Leads ⟨"/p/main.ts"⟩ ("./." ++ ".ts") ["p", "..ts"] ∧
      Path.extension? ⟨"/p/..ts"⟩ = some "ts" ∧ isScript "." = false ∧
      ofPath? ⟨"."⟩ = none ∧
      dotted.resolveFrom ⟨"/p/main.ts"⟩ "./." = .unresolved "./." := by
  refine ⟨isBuilt_programOf (by decide +kernel) (by decide +kernel), by decide +kernel,
    ?_, by decide +kernel,
    by decide, by decide, by decide +kernel⟩
  unfold Path.Leads
  decide +kernel

end Files

end Program

end Haxify
