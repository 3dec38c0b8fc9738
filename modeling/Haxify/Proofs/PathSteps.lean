import Haxify.Proofs.OutputPath
import Mathlib.Data.List.Basic
import Mathlib.Data.List.TakeWhile

/-!
# Steps of paths

The pieces of a path that lead anywhere are its names and parents. Joining two paths puts
their steps behind each other, and the parent of a path has all of its steps but the last.
-/

namespace Haxify

open List
open Text (splitOn)

variable {path : Path} {last : String}

namespace Path

/-- The pieces of a path that lead anywhere: its names and parents. -/
def steps (path : Path) : List String :=
  (splitOn '/' path.text).filter fun piece => !isFiller piece

def EndsInStep (path : Path) : Prop :=
  ∃ front last, splitOn '/' path.text = front ++ [last] ∧ isFiller last = false

theorem splitOn_join (base tail : Path) :
    ∃ front, splitOn '/' (base.join tail).text = front ++ splitOn '/' tail.text ∧
      (front.filter fun piece => !isFiller piece) =
        if tail.isAbsolute then [] else base.steps := by
  by_cases absolute : tail.isAbsolute
  · rw [join, if_pos absolute, if_pos absolute]
    exact ⟨[], rfl, rfl⟩
  · rw [if_neg absolute]
    by_cases empty : base.text = ""
    · have nothing : base.steps = [] := by
        rw [steps, empty]
        rfl
      rw [join, if_neg absolute, empty, nothing, beq_self_eq_true, Bool.true_or, if_pos rfl]
      exact ⟨[], by rw [String.empty_append]; rfl, rfl⟩
    · obtain ⟨front, _, pieces, same | same⟩ :=
        exists_splitOn_join ((Bool.not_eq_true _).mp absolute) empty
      · exact ⟨front, pieces, by rw [steps, same]⟩
      · refine ⟨front, pieces, ?_⟩
        rw [steps, same, filter_append]
        exact (append_nil _).symm

theorem steps_join (base tail : Path) :
    (base.join tail).steps = (if tail.isAbsolute then [] else base.steps) ++ tail.steps := by
  obtain ⟨front, pieces, kept⟩ := splitOn_join base tail
  rw [steps, pieces, filter_append, kept]
  rfl

theorem EndsInStep.join {tail : Path} (ends : EndsInStep tail) (base : Path) :
    EndsInStep (base.join tail) := by
  obtain ⟨front, pieces, _⟩ := splitOn_join base tail
  obtain ⟨before, last, cut, step⟩ := ends
  exact ⟨front ++ before, last, by rw [pieces, cut, append_assoc], step⟩

theorem isAbsolute_join (base tail : Path) :
    (base.join tail).isAbsolute = (tail.isAbsolute || base.isAbsolute) := by
  rw [join]
  by_cases absolute : tail.isAbsolute
  · rw [if_pos absolute, absolute, Bool.true_or]
  · rw [if_neg absolute, (Bool.not_eq_true _).mp absolute, Bool.false_or]
    by_cases empty : base.text = ""
    · have nothing : base.isAbsolute = false := by
        rw [isAbsolute, empty]
        rfl
      rw [empty, beq_self_eq_true, Bool.true_or, if_pos rfl, String.empty_append, nothing]
      exact (Bool.not_eq_true _).mp absolute
    · have front {back : String} : isAbsolute ⟨base.text ++ back⟩ = base.isAbsolute := by
        obtain ⟨first, rest, chars⟩ :=
          exists_cons_of_ne_nil fun none => empty (String.toList_eq_nil_iff.mp none)
        rw [isAbsolute, isAbsolute, Text.beginsWith, Text.beginsWith, String.toList_append, chars]
        simp [List.isPrefixOf]
      split
      · exact front
      · rw [String.append_assoc]
        exact front

theorem isAbsolute_iff_lead (path : Path) :
    path.isAbsolute ↔ lead (splitOn '/' path.text) = [""] := by
  have whole := Text.joinWith_splitOn '/' path.text
  constructor
  · intro absolute
    obtain ⟨rest, chars⟩ := isPrefixOf_iff_prefix.mp absolute
    have parts : path.text.toList = "".toList ++ '/' :: (String.ofList rest).toList := by
      simpa using chars.symm
    rw [Text.splitOn_append parts]
    obtain ⟨first, others, behind⟩ :=
      exists_cons_of_ne_nil (Text.splitOn_ne_nil '/' (String.ofList rest))
    rw [behind]
    rfl
  · intro start
    generalize splitOn '/' path.text = pieces at start whole
    unfold lead at start
    split at start
    · rw [isAbsolute, Text.beginsWith, ← whole, Text.joinWith, String.toList_append,
        String.toList_append]
      rfl
    · exact absurd start (by decide)
    · cases start

theorem exists_lead (pieces : List String) :
    pieces = lead pieces ++ pieces.drop (lead pieces).length ∧
      ∀ piece ∈ lead pieces, isFiller piece := by
  unfold lead
  split
  iterate 2 exact ⟨rfl, by decide⟩
  · exact ⟨rfl, by simp⟩

theorem dropFillers_eq_nil_or (pieces : List String) :
    dropFillers pieces = [] ∨
      ∃ front last, dropFillers pieces = front ++ [last] ∧ isFiller last = false := by
  rw [dropFillers]
  cases kept : pieces.reverse.dropWhile isFiller with
  | nil => exact .inl rfl
  | cons last front =>
    refine .inr ⟨front.reverse, last, reverse_cons, ?_⟩
    have first := head?_dropWhile_not isFiller pieces.reverse
    rw [kept] at first
    simpa using first

theorem exists_dropFillers (pieces : List String) :
    ∃ fillers, pieces = dropFillers pieces ++ fillers ∧ ∀ piece ∈ fillers, isFiller piece := by
  refine ⟨(pieces.reverse.takeWhile isFiller).reverse, ?_, ?_⟩
  · rw [dropFillers, ← reverse_append, takeWhile_append_dropWhile, reverse_reverse]
  · intro piece member
    rw [mem_reverse] at member
    exact mem_takeWhile_imp member

theorem filter_of_fillers {fillers : List String} (leads : ∀ piece ∈ fillers, isFiller piece) :
    (fillers.filter fun piece => !isFiller piece) = [] := by
  apply filter_eq_nil_iff.mpr
  intro piece member
  simp [leads piece member]

theorem steps_eq_body (path : Path) :
    path.steps = path.body.filter fun piece => !isFiller piece := by
  obtain ⟨pieces, leads⟩ := exists_lead (splitOn '/' path.text)
  obtain ⟨fillers, kept, ending⟩ := exists_dropFillers
    ((splitOn '/' path.text).drop (lead (splitOn '/' path.text)).length)
  rw [steps, pieces, filter_append, filter_of_fillers leads, nil_append, kept,
    filter_append, filter_of_fillers ending, append_nil]
  rfl

theorem splitOn_ofPieces {start body : List String} (some : body ≠ [])
    (apart : ∀ piece ∈ start ++ body, '/' ∉ piece.toList) :
    splitOn '/' (ofPieces start body).text = start ++ body := by
  have whole : (ofPieces start body).text = Text.joinWith "/" (start ++ body) := by
    unfold ofPieces
    split
    · exact absurd rfl some
    · rfl
  have single : ∀ piece ∈ start ++ body, splitOn '/' piece = [piece] :=
    fun piece member => Text.splitOn_of_not_mem (apart piece member)
  have joined := Text.splitOn_joinWith '/' (append_ne_nil_of_right_ne_nil start some)
  rw [whole]
  refine joined.trans ((flatMap_congr single).trans ?_)
  exact flatMap_singleton' _

theorem slash_not_mem_of_mem_splitOn {piece : String}
    (member : piece ∈ splitOn '/' path.text) : '/' ∉ piece.toList :=
  fun slash => (Text.mem_of_mem_splitOn member slash).2 rfl

theorem lead_append (step : isFiller last = false) (front back : List String) :
    lead (front ++ [last] ++ back) = lead (front ++ [last]) := by
  cases front with
  | nil =>
    have written : last ≠ "" := by
      rintro rfl
      cases step
    have named : last ≠ "." := by
      rintro rfl
      cases step
    cases back <;> simp [lead, written, named]
  | cons first rest =>
    by_cases empty : first = ""
    · cases rest <;> simp [lead, empty]
    · by_cases dot : first = "."
      · simp [lead, dot]
      · simp [lead, empty, dot]

/-- A path with steps has a parent with all of them but the last, which starts where the path
does. If there are steps left, it ends in one. -/
theorem parent_of_steps {front : List String} (cut : path.steps = front ++ [last]) :
    ∃ above, path.parent? = some above ∧ above.steps = front ∧
      above.isAbsolute = path.isAbsolute ∧ (front ≠ [] → above.EndsInStep) := by
  obtain ⟨pieces, leads⟩ := exists_lead (splitOn '/' path.text)
  obtain ⟨fillers, behind, _⟩ := exists_dropFillers
    ((splitOn '/' path.text).drop (lead (splitOn '/' path.text)).length)
  have body_cut := steps_eq_body path
  rw [cut] at body_cut
  rcases dropFillers_eq_nil_or
    ((splitOn '/' path.text).drop (lead (splitOn '/' path.text)).length) with
    nothing | ⟨before, final, whole, step⟩
  · rw [body, nothing] at body_cut
    exact absurd body_cut.symm (by simp)
  · have body_eq : path.body = before ++ [final] := whole
    have single : ([final].filter fun piece => !isFiller piece) = [final] := by simp [step]
    rw [body_eq, filter_append, single] at body_cut
    obtain ⟨front_eq, _⟩ := append_inj' body_cut rfl
    have parent : path.parent? =
        some (ofPieces (lead (splitOn '/' path.text)) (dropFillers before)) := by
      unfold parent?
      rw [body_eq]
      split
      · rename_i empty
        exact absurd empty (by simp)
      · rw [dropLast_concat]
    refine ⟨_, parent, ?_⟩
    obtain ⟨more, before_eq, more_fill⟩ := exists_dropFillers before
    have kept : front = (dropFillers before).filter fun piece => !isFiller piece := by
      rw [front_eq, before_eq, filter_append, filter_of_fillers more_fill, append_nil, ← before_eq]
    rcases dropFillers_eq_nil_or before with none | ⟨others, next, ending, next_step⟩
    · -- No steps are left: the parent is the root, a dot or nothing.
      have gone : front = [] := by rw [kept, none]; rfl
      rw [gone, none, Bool.eq_iff_iff, isAbsolute_iff_lead path]
      unfold lead
      split
      all_goals exact ⟨rfl, by decide, by simp⟩
    · have apart : ∀ piece ∈ lead (splitOn '/' path.text) ++ dropFillers before,
          '/' ∉ piece.toList := by
        intro piece member
        apply slash_not_mem_of_mem_splitOn
        rw [pieces, behind, whole, before_eq]
        simp only [mem_append] at member ⊢
        tauto
      have some : dropFillers before ≠ [] := by simp [ending]
      have parts := splitOn_ofPieces some apart
      refine ⟨?_, ?_, fun _ => ?_⟩
      · rw [steps, parts, filter_append, filter_of_fillers leads, kept]
        rfl
      · have order : splitOn '/' path.text =
            lead (splitOn '/' path.text) ++ others ++ [next] ++ (more ++ [final] ++ fillers) := by
          conv_lhs => rw [pieces, behind, whole, before_eq, ending]
          simp only [append_assoc]
        have start : lead (splitOn '/' path.text) =
            lead (lead (splitOn '/' path.text) ++ others ++ [next]) := by
          conv_lhs => rw [order, lead_append next_step]
        rw [Bool.eq_iff_iff, isAbsolute_iff_lead, isAbsolute_iff_lead, parts, ending,
          ← append_assoc, ← start]
      · exact ⟨lead (splitOn '/' path.text) ++ others, next,
          by rw [parts, ending, append_assoc], next_step⟩

end Path

namespace Haxe.Address

variable {address : Address}

variable (no_slash : '/' ∉ address.moduleName.toList)
include no_slash

theorem exists_steps_outputPath :
    ∃ directories, address.outputPath.steps = directories ++ [address.moduleName ++ ".hx"] ∧
      ∀ directory ∈ directories, '.' ∉ directory.toList := by
  have dotless (segments : List String) (plain : ∀ segment ∈ segments, '.' ∉ segment.toList) :
      ∀ step ∈ (segments.foldl (fun path segment => path.join ⟨segment⟩) (⟨""⟩ : Path)).steps,
        '.' ∉ step.toList := by
    refine foldlRecOn (motive := fun path : Path => ∀ step ∈ path.steps, '.' ∉ step.toList)
      segments _ (by decide) fun base base_plain segment listed step member => ?_
    rw [Path.steps_join, mem_append] at member
    rcases member with before | own
    · split at before
      · cases before
      · exact base_plain step before
    · exact fun dot => plain segment listed (Text.mem_of_mem_splitOn (mem_filter.mp own).1 dot).1
  have plain := plain_fileName no_slash
  have file_steps :
      (⟨address.moduleName ++ ".hx"⟩ : Path).steps = [address.moduleName ++ ".hx"] := by
    rw [Path.steps, Text.splitOn_of_not_mem plain.no_slash]
    simp [Path.isFiller, plain.ne_empty, plain.ne_current]
  refine ⟨_, ?_, dotless ((splitOn '.' address.packagePath).filter (· != "")) ?_⟩
  · rw [outputPath, Path.steps_join, Path.isAbsolute_of_no_slash plain.no_slash, file_steps]
    rfl
  · intro segment member dot
    exact (Text.mem_of_mem_splitOn (mem_filter.mp member).1 dot).2 rfl

theorem parent_not_mem_steps : ".." ∉ address.outputPath.steps := by
  obtain ⟨directories, steps, dotless⟩ := exists_steps_outputPath no_slash
  intro member
  rw [steps, mem_append, mem_singleton] at member
  rcases member with inside | last
  · exact dotless _ inside (by decide)
  · exact (plain_fileName no_slash).ne_parent last.symm

theorem endsInStep_outputPath : address.outputPath.EndsInStep := by
  have plain := plain_fileName no_slash
  have ends : Path.EndsInStep ⟨address.moduleName ++ ".hx"⟩ := by
    refine ⟨[], _, Text.splitOn_of_not_mem plain.no_slash, ?_⟩
    simp [Path.isFiller, plain.ne_empty, plain.ne_current]
  exact ends.join _

omit no_slash

theorem steps_outputPath_eq_of_prefix {first second : Address}
    (first_plain : '/' ∉ first.moduleName.toList) (second_plain : '/' ∉ second.moduleName.toList)
    (above : first.outputPath.steps <+: second.outputPath.steps) :
    first.outputPath.steps = second.outputPath.steps := by
  obtain ⟨ours, our_steps, _⟩ := exists_steps_outputPath first_plain
  obtain ⟨theirs, their_steps, dotless⟩ := exists_steps_outputPath second_plain
  rw [our_steps, their_steps] at above ⊢
  rcases prefix_concat_iff.mp above with same | inside
  · exact same
  · have member : first.moduleName ++ ".hx" ∈ theirs := inside.subset (by simp)
    refine absurd ?_ (dotless _ member)
    rw [String.toList_append]
    exact mem_append_right _ (by decide)

theorem isAbsolute_outputPath {basePackage : String} (below : address.Below basePackage) :
    address.outputPath.isAbsolute =
      ((baseSegments basePackage).foldl (fun path segment => path.join ⟨segment⟩)
        (⟨""⟩ : Path)).isAbsolute := by
  obtain ⟨rest, parts, plain, no_slash⟩ := below
  have fold (names : List String) (named : ∀ name ∈ names, Path.Plain name) (base : Path) :
      (names.foldl (fun path name => path.join ⟨name⟩) base).isAbsolute = base.isAbsolute := by
    refine foldlRecOn (motive := (Path.isAbsolute · = base.isAbsolute)) names _ rfl
      fun path same name member => ?_
    rw [Path.isAbsolute_join, Path.isAbsolute_of_no_slash (named name member).no_slash,
      Bool.false_or, same]
  rw [outputPath, Path.isAbsolute_join,
    Path.isAbsolute_of_no_slash (plain_fileName no_slash).no_slash, Bool.false_or,
    show (splitOn '.' address.packagePath).filter (· != "") = _ from parts,
    foldl_append, fold rest plain]

end Haxe.Address

end Haxify
