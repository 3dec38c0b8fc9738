import Haxify.Haxe.Address
import Haxify.Proofs.Names

/-!
# Where modules are written

The output path of a module is read back: its components are those that the base package
contributes, the segments of the package that are not empty, and the name of the module.
Main statement: below one base package, two modules are written to the same place exactly
when they agree in their names and in these segments. Packages that differ in empty segments
only are not told apart.
-/

namespace Haxify

open Text (splitOn trim joinWith)

variable {name : String}

namespace Path

variable {pieces : List String}

/-- A name that is one component of a path wherever it stands. -/
structure Plain (name : String) : Prop where
  ne_empty : name ≠ ""
  ne_current : name ≠ "."
  ne_parent : name ≠ ".."
  no_slash : '/' ∉ name.toList

theorem isAbsolute_of_no_slash {text : String} (no_slash : '/' ∉ text.toList) :
    isAbsolute ⟨text⟩ = false := by
  rw [isAbsolute, Text.beginsWith]
  cases chars : text.toList with
  | nil => rfl
  | cons first rest =>
    have other : '/' ≠ first := fun same =>
      no_slash (by rw [chars, same]; exact .head _)
    simp [List.isPrefixOf, other]

theorem Plain.ofPiece_eq (plain : Plain name) : ofPiece name = some (.name name) := by
  simp [ofPiece, isFiller, plain.ne_empty, plain.ne_current, plain.ne_parent]

theorem leadComponents_append (first : String) (rest : List String) (last : String) :
    leadComponents (first :: rest ++ [last]) =
      if first = "" then [.root] else if first = "." then [.current] else [] := by
  have shape : ∃ next more, rest ++ [last] = next :: more := by
    cases rest with
    | nil => exact ⟨last, [], rfl⟩
    | cons next others => exact ⟨next, others ++ [last], rfl⟩
  obtain ⟨next, more, behind⟩ := shape
  rw [List.cons_append, behind]
  by_cases empty : first = ""
  · simp [leadComponents, lead, empty]
  · by_cases dot : first = "."
    · simp [leadComponents, lead, dot]
    · simp [leadComponents, lead, empty, dot]

theorem leadComponents_append_congr (some : pieces ≠ []) (first second : String) :
    leadComponents (pieces ++ [first]) = leadComponents (pieces ++ [second]) := by
  obtain ⟨piece, rest, rfl⟩ := List.exists_cons_of_ne_nil some
  rw [leadComponents_append, leadComponents_append]

theorem leadComponents_append_self (some : pieces ≠ []) (apart : pieces ≠ [""]) (last : String) :
    leadComponents (pieces ++ [last]) = leadComponents pieces := by
  obtain ⟨piece, rest, rfl⟩ := List.exists_cons_of_ne_nil some
  rcases List.eq_nil_or_concat rest with rfl | ⟨others, final, rfl⟩
  · have written : piece ≠ "" := fun empty => apart (by rw [empty])
    rw [leadComponents_append]
    by_cases dot : piece = "."
    · simp [leadComponents, lead, dot]
    · simp [leadComponents, lead, written, dot]
  · rw [List.concat_eq_append, leadComponents_append, ← List.cons_append, leadComponents_append]

/-- The pieces of a joined path are those of the base, up to an empty one that a slash at its end
leaves, and those of the tail. -/
theorem exists_splitOn_join {base tail : Path} (relative : tail.isAbsolute = false)
    (written : base.text ≠ "") :
    ∃ front, front ≠ [] ∧
      splitOn '/' (base.join tail).text = front ++ splitOn '/' tail.text ∧
      (splitOn '/' base.text = front ∨ splitOn '/' base.text = front ++ [""]) := by
  rw [join, relative, if_neg Bool.false_ne_true, beq_eq_false_iff_ne.mpr written, Bool.false_or]
  split
  · rename_i slash
    obtain ⟨front, chars⟩ := List.isSuffixOf_iff_suffix.mp slash
    have base_text : base.text.toList = (String.ofList front).toList ++ '/' :: "".toList := by
      rw [String.toList_ofList]
      exact chars.symm
    have joined : (base.text ++ tail.text).toList =
        (String.ofList front).toList ++ '/' :: tail.text.toList := by
      rw [String.toList_append, base_text, List.append_assoc]
      rfl
    exact ⟨_, Text.splitOn_ne_nil _ _, Text.splitOn_append joined,
      .inr (Text.splitOn_append base_text)⟩
  · have joined : (base.text ++ "/" ++ tail.text).toList =
        base.text.toList ++ '/' :: tail.text.toList := by
      rw [String.toList_append, String.toList_append, List.append_assoc]
      rfl
    exact ⟨_, Text.splitOn_ne_nil _ _, Text.splitOn_append joined, .inl rfl⟩

theorem components_join_piece {piece : String} {component : Component} (base : Path)
    (stands : ofPiece piece = some component) (no_slash : '/' ∉ piece.toList) :
    (base.join ⟨piece⟩).components = base.components ++ [component] := by
  have found : [piece].filterMap ofPiece = [component] := by
    rw [List.filterMap_cons_some stands]
    rfl
  have ne_current : piece ≠ "." := by
    rintro rfl
    cases stands
  have cut : splitOn '/' piece = [piece] := Text.splitOn_of_not_mem no_slash
  have relative := isAbsolute_of_no_slash no_slash
  by_cases empty : base.text = ""
  · have single : leadComponents [piece] = [] := by
      simp [leadComponents, lead, ne_current]
    rw [join, relative, if_neg Bool.false_ne_true]
    simp only [empty, components, beq_self_eq_true, Bool.true_or, if_true, String.empty_append]
    rw [cut, single, found]
    rfl
  · obtain ⟨front, some, joined, base_cut⟩ := exists_splitOn_join relative empty
    rw [components, components, joined, cut, List.filterMap_append, found]
    rcases base_cut with same | same
    · have apart : front ≠ [""] := by
        rintro rfl
        have whole := Text.joinWith_splitOn '/' base.text
        rw [same] at whole
        exact empty whole.symm
      rw [same, leadComponents_append_self some apart, List.append_assoc]
    · have nothing : [""].filterMap ofPiece = [] := rfl
      rw [same, List.filterMap_append, nothing, List.append_nil,
        leadComponents_append_congr some piece "", List.append_assoc]

theorem components_join (base : Path) (plain : Plain name) :
    (base.join ⟨name⟩).components = base.components ++ [.name name] :=
  components_join_piece base plain.ofPiece_eq plain.no_slash

theorem components_foldl_join {names : List String} (plain : ∀ name ∈ names, Plain name)
    (base : Path) :
    (names.foldl (fun path name => path.join ⟨name⟩) base).components =
      base.components ++ names.map .name := by
  induction names generalizing base with
  | nil => rw [List.foldl_nil, List.map_nil, List.append_nil]
  | cons name rest rest_components =>
    rw [List.foldl_cons, rest_components fun other member => plain other (.tail _ member),
      components_join base (plain name (.head _)), List.append_assoc]
    rfl

end Path

namespace Haxe

variable {part name basePackage : String}

/-- The segments that one part of a package contributes to output paths. -/
def cutPart (part : String) : List String :=
  (splitOn '.' (trim part)).filter (· != "")

def baseSegments (basePackage : String) : List String :=
  (splitOn '.' basePackage).flatMap cutPart

/-- The segments of a package that are not empty. -/
def Address.segments (address : Address) : List String :=
  (splitOn '.' address.packagePath).filter (· != "")

theorem cutPart_of_blank (blank : trim part = "") : cutPart part = [] := by
  rw [cutPart, blank]
  rfl

theorem segments_packagePath (parts : List String) :
    (splitOn '.' (packagePath parts)).filter (· != "") = parts.flatMap cutPart := by
  have kept (texts : List String) :
      ((texts.filter (· != "")).flatMap (splitOn '.')).filter (· != "") =
        texts.flatMap fun text => (splitOn '.' text).filter (· != "") := by
    induction texts with
    | nil => rfl
    | cons text rest rest_kept =>
      by_cases empty : text = ""
      · rw [List.filter_cons_of_neg (by simp [empty]), rest_kept, List.flatMap_cons, empty]
        rfl
      · rw [List.filter_cons_of_pos (by simp [empty]), List.flatMap_cons, List.filter_append,
          rest_kept, List.flatMap_cons]
  rw [packagePath]
  have cut : (splitOn '.' (joinWith "." ((parts.map trim).filter (· != "")))).filter
      (· != "") = (((parts.map trim).filter (· != "")).flatMap (splitOn '.')).filter (· != "") := by
    by_cases none : (parts.map trim).filter (· != "") = []
    · rw [none]
      rfl
    · exact congrArg (List.filter (· != "")) (Text.splitOn_joinWith '.' none)
  rw [cut, kept, List.flatMap_map]
  rfl

theorem plain_of_mem_cutPart {segment : String} (no_slash : '/' ∉ part.toList)
    (member : segment ∈ cutPart part) : Path.Plain segment := by
  obtain ⟨listed, written⟩ := List.mem_filter.mp member
  have no_dot : '.' ∉ segment.toList := fun dot => (Text.mem_of_mem_splitOn listed dot).2 rfl
  refine ⟨by simpa using written, ?_, ?_, ?_⟩
  · intro same
    exact no_dot (by rw [same]; decide)
  · intro same
    exact no_dot (by rw [same]; decide)
  · intro slash
    exact no_slash (Text.mem_of_mem_trim (Text.mem_of_mem_splitOn listed slash).1)

theorem slash_not_mem_moduleName (text : String) : '/' ∉ (moduleName text).toList :=
  fun member => absurd (isAlphanum_of_mem_moduleName member) (by decide)

namespace Address

/-- An address below a base package: the base contributes its segments, and all others as
well as the name are plain. -/
def Below (basePackage : String) (address : Address) : Prop :=
  ∃ rest, address.segments = baseSegments basePackage ++ rest ∧
    (∀ segment ∈ rest, Path.Plain segment) ∧ '/' ∉ address.moduleName.toList

theorem plain_fileName (no_slash : '/' ∉ name.toList) : Path.Plain (name ++ ".hx") := by
  have letter : 'h' ∈ (name ++ ".hx").toList := by
    rw [String.toList_append]
    exact List.mem_append_right _ (by decide)
  have differs {other : String} (lacks : 'h' ∉ other.toList) : name ++ ".hx" ≠ other := by
    intro same
    rw [same] at letter
    exact lacks letter
  refine ⟨differs (by decide), differs (by decide), differs (by decide), ?_⟩
  rw [String.toList_append, List.mem_append]
  exact not_or.mpr ⟨no_slash, by decide⟩

theorem components_outputPath_eq_iff {first second : Address}
    (first_below : first.Below basePackage) (second_below : second.Below basePackage) :
    first.outputPath.components = second.outputPath.components ↔
      first.segments = second.segments ∧ first.moduleName = second.moduleName := by
  have spread {address : Address} {rest : List String}
      (parts : address.segments = baseSegments basePackage ++ rest)
      (plain : ∀ segment ∈ rest, Path.Plain segment) (no_slash : '/' ∉ address.moduleName.toList) :
      address.outputPath.components =
        ((baseSegments basePackage).foldl (fun path segment => path.join ⟨segment⟩)
          (⟨""⟩ : Path)).components ++
            (rest.map .name ++ [.name (address.moduleName ++ ".hx")]) := by
    rw [outputPath, Path.components_join _ (plain_fileName no_slash)]
    rw [show (splitOn '.' address.packagePath).filter (· != "") = _ from parts,
      List.foldl_append, Path.components_foldl_join plain, List.append_assoc]
  obtain ⟨ours, our_parts, our_plain, our_name⟩ := first_below
  obtain ⟨theirs, their_parts, their_plain, their_name⟩ := second_below
  rw [spread our_parts our_plain our_name, spread their_parts their_plain their_name,
    List.append_cancel_left_eq, our_parts, their_parts, List.append_cancel_left_eq]
  constructor
  · intro same
    obtain ⟨directories, files⟩ := List.append_inj' same rfl
    refine ⟨(List.map_inj_right fun _ _ => Path.Component.name.inj).mp directories, ?_⟩
    have names := Path.Component.name.inj (List.cons.inj files).1
    exact (String.append_left_inj ".hx").mp names
  · rintro ⟨directories, names⟩
    rw [directories, names]

theorem slash_not_mem_of_mem_namesOf {path : Path} (member : name ∈ namesOf path) :
    '/' ∉ name.toList := by
  obtain ⟨component, listed, found⟩ := List.mem_filterMap.mp member
  cases component with
  | root | current | parent => cases found
  | name text =>
    obtain rfl := Option.some.inj found
    rcases List.mem_append.mp listed with start | behind
    · rw [Path.leadComponents] at start
      split at start
      · cases start
      · split at start <;> simp at start
    · obtain ⟨piece, cut, same⟩ := List.mem_filterMap.mp behind
      rw [Path.ofPiece] at same
      split at same
      · cases same
      split at same
      · cases same
      · cases same
        exact fun slash => (Text.mem_of_mem_splitOn cut slash).2 rfl

theorem ofSource_below (relative : Path) (basePackage : String) :
    (ofSource relative basePackage).Below basePackage := by
  refine ⟨(namesOf relative).dropLast.flatMap cutPart, ?_, ?_, ?_⟩
  · have base (parts : List String) :
        (parts.filter fun part => trim part != "").flatMap cutPart = parts.flatMap cutPart := by
      induction parts with
      | nil => rfl
      | cons part rest rest_base =>
        by_cases blank : trim part = ""
        · rw [List.filter_cons_of_neg (by simp [blank]), rest_base, List.flatMap_cons,
            cutPart_of_blank blank, List.nil_append]
        · rw [List.filter_cons_of_pos (by simp [blank]), List.flatMap_cons, rest_base,
            List.flatMap_cons]
    rw [segments, ofSource, segments_packagePath, List.flatMap_append, base]
    rfl
  · intro segment member
    obtain ⟨directory, listed, cut⟩ := List.mem_flatMap.mp member
    have named := (List.dropLast_sublist _).subset listed
    exact plain_of_mem_cutPart (slash_not_mem_of_mem_namesOf named) cut
  · simp only [ofSource]
    exact slash_not_mem_moduleName _

theorem joinWith_segments {address : Address}
    (clean : address.packagePath = "" ∨ "" ∉ splitOn '.' address.packagePath) :
    joinWith "." address.segments = address.packagePath := by
  rcases clean with root | written
  · rw [segments, root]
    rfl
  · have all : address.segments = splitOn '.' address.packagePath := by
      apply List.filter_eq_self.mpr
      intro segment member
      simpa using fun empty : segment = "" => written (empty ▸ member)
    rw [all]
    exact Text.joinWith_splitOn '.' address.packagePath

/-- A part of a package that leaves no empty segment: it is blank, or it neither begins nor
ends with a dot and has no two dots next to each other. -/
def CleanPart (part : String) : Prop :=
  trim part = "" ∨ "" ∉ splitOn '.' (trim part)

theorem packagePath_clean {parts : List String} (clean : ∀ part ∈ parts, CleanPart part) :
    Haxe.packagePath parts = "" ∨ "" ∉ splitOn '.' (Haxe.packagePath parts) := by
  rw [Haxe.packagePath]
  by_cases none : (parts.map trim).filter (· != "") = []
  · rw [none]
    exact .inl rfl
  · refine .inr fun member => ?_
    have cut := Text.splitOn_joinWith '.' none
    rw [show splitOn '.' (joinWith "." _) = _ from cut] at member
    obtain ⟨text, listed, empty⟩ := List.mem_flatMap.mp member
    obtain ⟨trimmed, written⟩ := List.mem_filter.mp listed
    obtain ⟨part, found, rfl⟩ := List.mem_map.mp trimmed
    rcases clean part found with blank | full
    · exact absurd blank (by simpa using written)
    · exact full empty

theorem cleanPart_of_mem_splitOn (member : part ∈ splitOn '.' basePackage) : CleanPart part := by
  by_cases blank : trim part = ""
  · exact .inl blank
  · have no_dot : '.' ∉ (trim part).toList := fun dot =>
      (Text.mem_of_mem_splitOn member (Text.mem_of_mem_trim dot)).2 rfl
    rw [CleanPart, Text.splitOn_of_not_mem no_dot, List.mem_singleton]
    exact .inr fun empty => blank empty.symm

theorem ofSource_clean {relative : Path}
    (clean : ∀ directory ∈ (namesOf relative).dropLast, CleanPart directory) :
    joinWith "." (ofSource relative basePackage).segments =
      (ofSource relative basePackage).packagePath := by
  apply joinWith_segments
  apply packagePath_clean
  intro part member
  rcases List.mem_append.mp member with base | directory
  · exact cleanPart_of_mem_splitOn (List.mem_filter.mp base).1
  · exact clean part directory

end Address

end Haxe

end Haxify
