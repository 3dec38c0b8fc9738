import Haxify.Emit.Plan
import Haxify.Proofs.Normalizing
import Haxify.Proofs.Program

/-!
# The order of sources

Paths are ordered by their components, and a normalized path is determined by them. So
sources with different paths have one order, whatever order they are given in. Main statement:
the outcome of putting a program together, be it an error or a program, is the same for every
order of its sources; the files of the program stand in the order of their paths, and each is
found by its path.
-/

namespace Haxify

open List
open TypeScript.SourceKind (ofPath?)

variable {sources : List (Path × String)} {program : Program}

namespace Path

theorem Component.compare_eq_compareLex :
    Component.compare = compareLex (compareOn Component.rank) (compareOn Component.text) := by
  funext left right
  cases left <;> cases right <;> rfl

theorem Component.eq_of_rank_eq {left right : Component} (kinds : left.rank = right.rank)
    (texts : left.text = right.text) : left = right := by
  cases left <;> cases right <;> simp_all [Component.rank, Component.text]

instance : Std.TransCmp Component.compare := by
  rw [Component.compare_eq_compareLex]
  infer_instance

instance : Std.LawfulEqCmp Component.compare where
  eq_of_compare := by
    intro left right tie
    rw [Component.compare_eq_compareLex, compareLex, Ordering.then_eq_eq] at tie
    exact Component.eq_of_rank_eq (Std.LawfulEqCmp.eq_of_compare tie.1)
      (Std.LawfulEqCmp.eq_of_compare tie.2)

theorem compareComponents_eq_compareLex (left right : List Component) :
    compareComponents left right = left.compareLex Component.compare right := by
  induction left generalizing right with
  | nil => cases right <;> rfl
  | cons first lefts lefts_eq =>
    cases right with
    | nil => rfl
    | cons second rights =>
      rw [compareComponents, List.compareLex_cons_cons]
      cases first.compare second with
      | lt => rfl
      | eq => exact lefts_eq rights
      | gt => rfl

theorem notAfter_eq_isLE (left right : Path) :
    left.notAfter right = (left.components.compareLex Component.compare right.components).isLE := by
  rw [notAfter, compareComponents_eq_compareLex]
  cases left.components.compareLex Component.compare right.components <;> rfl

theorem notAfter_trans {first second third : Path} (before : first.notAfter second)
    (behind : second.notAfter third) : first.notAfter third := by
  rw [notAfter_eq_isLE] at *
  exact Std.TransCmp.isLE_trans before behind

theorem notAfter_total (first second : Path) : first.notAfter second || second.notAfter first := by
  have swapped : second.components.compareLex Component.compare first.components =
      (first.components.compareLex Component.compare second.components).swap :=
    Std.OrientedCmp.eq_swap
  rw [notAfter_eq_isLE, notAfter_eq_isLE, swapped]
  cases first.components.compareLex Component.compare second.components <;> rfl

theorem components_eq_of_notAfter {first second : Path} (before : first.notAfter second)
    (behind : second.notAfter first) : first.components = second.components := by
  rw [notAfter_eq_isLE] at *
  exact Std.LawfulEqCmp.eq_of_compare (Std.OrientedCmp.isLE_antisymm before behind)

end Path

namespace Program

variable {grammar : Grammar} {root : Path} {basePackage : String}

/-- Sources with their paths below a root directory, normalized. -/
def placed (root : Path) (sources : List (Path × String)) : List (Path × String) :=
  sources.map fun item => ((root.normalize.join item.1).normalize, item.2)

def inOrder (sources : List (Path × String)) : List (Path × String) :=
  sources.mergeSort fun left right => left.1.notAfter right.1

theorem inOrder_perm (sources : List (Path × String)) : (inOrder sources).Perm sources :=
  mergeSort_perm _ _

theorem pairwise_inOrder (sources : List (Path × String)) :
    (inOrder sources).Pairwise fun left right => left.1.notAfter right.1 := by
  rw [inOrder]
  apply pairwise_mergeSort
  · intro first second third before behind
    exact Path.notAfter_trans before behind
  · intro first second
    exact Path.notAfter_total first.1 second.1

theorem inOrder_placed_perm {other : List (Path × String)} (permuted : sources.Perm other)
    (distinct : ((placed root sources).map (·.1)).Nodup) :
    inOrder (placed root sources) = inOrder (placed root other) := by
  have moved : (placed root sources).Perm (placed root other) := permuted.map _
  have same : (inOrder (placed root sources)).Perm (inOrder (placed root other)) :=
    (inOrder_perm _).trans (moved.trans (inOrder_perm _).symm)
  refine same.eq_of_pairwise ?_ (pairwise_inOrder _) (pairwise_inOrder _)
  intro first second first_member second_member before behind
  have first_listed : first ∈ placed root sources := (inOrder_perm _).mem_iff.mp first_member
  have second_listed : second ∈ placed root sources :=
    moved.mem_iff.mpr ((inOrder_perm _).mem_iff.mp second_member)
  -- Both paths are normalized, so the same components make them the same path.
  have paths : first.1 = second.1 := by
    have same_components := Path.components_eq_of_notAfter before behind
    obtain ⟨_, _, rfl⟩ := mem_map.mp first_listed
    obtain ⟨_, _, rfl⟩ := mem_map.mp second_listed
    dsimp only at same_components ⊢
    exact Path.normalize_eq_of_components same_components
  exact inj_on_of_nodup_map distinct first_listed second_listed paths

theorem assemble_eq (sources : List (Path × String)) :
    assemble grammar root basePackage sources =
      ((inOrder sources).foldlM (fun files (item : Path × String) =>
        addSource grammar root basePackage files item.1 item.2) []).map
          fun files => ⟨none, root, basePackage, files⟩ := rfl

variable (assembled : assemble grammar root basePackage sources = .ok program)
include assembled

theorem files_of_assemble :
    program.files.map (fun file => (file.path, file.source)) =
      (inOrder sources).filter fun item => (ofPath? item.1).isSome := by
  have fold (items : List (Path × String)) (files result : List SourceFile)
      (run : items.foldlM (fun files (item : Path × String) =>
        addSource grammar root basePackage files item.1 item.2) files = Except.ok result) :
      result.map (fun file => (file.path, file.source)) =
        files.map (fun file => (file.path, file.source)) ++
          items.filter fun item => (ofPath? item.1).isSome := by
    induction items generalizing files with
    | nil =>
      rw [foldlM_nil] at run
      cases run
      simp
    | cons item rest rest_files =>
      rw [foldlM_cons] at run
      obtain ⟨added, taken, behind⟩ := bind_eq_ok.mp run
      rw [rest_files added behind]
      rcases addSource_eq_ok taken with ⟨other, rfl⟩ | ⟨kind, relative, tree, found, _, _, _, rfl⟩
      · rw [filter_cons_of_neg (by simp [other])]
      · rw [filter_cons_of_pos (by simp [found]), map_append, append_assoc]
        rfl
  obtain ⟨files, run, same⟩ := bind_eq_ok.mp assembled
  cases same
  exact fold (inOrder sources) [] files run

theorem files_in_order (distinct : (sources.map (·.1)).Nodup) :
    (program.files.Pairwise fun first second => first.path.notAfter second.path) ∧
      (program.files.map (·.path)).Nodup := by
  have listed := files_of_assemble assembled
  constructor
  · have ascending := (pairwise_inOrder sources).filter
      fun item => (ofPath? item.1).isSome
    rw [← listed, pairwise_map] at ascending
    exact ascending
  · have apart : ((inOrder sources).map (·.1)).Nodup :=
      ((inOrder_perm sources).map _).nodup_iff.mpr distinct
    have paths : program.files.map (·.path) = ((inOrder sources).filter fun item =>
          (ofPath? item.1).isSome).map (·.1) := by
      rw [← listed, map_map]
      rfl
    rw [paths]
    exact apart.sublist (filter_sublist.map _)

omit assembled

theorem findFrom_of_nodup {files : List SourceFile} (distinct : (files.map (·.path)).Nodup)
    {file : SourceFile} {offset : Nat} (listed : files[offset]? = some file) (start : Nat) :
    findFrom file.path start files = some (start + offset) := by
  have missing (others : List SourceFile) (absent : file.path ∉ others.map (·.path))
      (first : Nat) : findFrom file.path first others = none := by
    cases found : findFrom file.path first others with
    | none => rfl
    | some number =>
      obtain ⟨_, other, _, there, same⟩ := exists_of_findFrom found
      exact absurd (mem_map.mpr ⟨other, mem_of_getElem? there, same⟩) absent
  induction files generalizing start offset with
  | nil => cases listed
  | cons head rest rest_found =>
    obtain ⟨absent, rest_distinct⟩ := nodup_cons.mp distinct
    rw [findFrom]
    cases offset with
    | zero =>
      obtain rfl : head = file := by simpa using listed
      rw [missing rest absent, Option.none_or, if_pos rfl, Nat.add_zero]
    | succ offset =>
      rw [rest_found rest_distinct (by simpa using listed) (start + 1), Option.some_or]
      exact congrArg some (by omega)

/-- The outcome for sources with different paths does not depend on the order they are given
in: it is the same error or the same program, and so the same plan. The files of the program
stand in the order of their paths, and each is found by its path. -/
theorem ofSources_perm (grammar : Grammar) (root : Path) (basePackage : String)
    {other : List (Path × String)} (permuted : sources.Perm other)
    (distinct : ((placed root sources).map (·.1)).Nodup) :
    ofSources grammar root basePackage sources = ofSources grammar root basePackage other ∧
      (∀ indent, (ofSources grammar root basePackage sources).map (Emit.Plan.make · indent) =
        (ofSources grammar root basePackage other).map (Emit.Plan.make · indent)) ∧
      ∀ program, ofSources grammar root basePackage sources = .ok program →
        (program.files.Pairwise fun first second => first.path.notAfter second.path) ∧
          ∀ index file, program.files[index]? = some file →
            program.findPath file.path = some index := by
  have sorted := inOrder_placed_perm permuted distinct
  have same :
      ofSources grammar root basePackage sources = ofSources grammar root basePackage other := by
    change assemble grammar root.normalize basePackage (placed root sources) =
      assemble grammar root.normalize basePackage (placed root other)
    rw [assemble_eq, assemble_eq, sorted]
  refine ⟨same, fun indent => by rw [same], fun program assembled => ?_⟩
  obtain ⟨ascending, paths⟩ := files_in_order assembled distinct
  refine ⟨ascending, fun index file listed => ?_⟩
  rw [findPath, findFrom_of_nodup paths listed 0, Nat.zero_add]

namespace Sample

def noStatements : Grammar := fun _ source =>
  some (.node ⟨"program", true, false, "", 0, source.utf8ByteSize, ⟨0, 0⟩, source⟩ () [])

def detour : List (Path × String) := [(⟨"b.ts"⟩, "// b"), (⟨"lib/../a.ts"⟩, "// a")]

end Sample

open Sample

/-- Two sources give the same outcome in both orders. -/
theorem reversed_sources_agree :
    detour.Perm detour.reverse ∧
      ((placed ⟨"./src"⟩ detour).map (·.1)).Nodup ∧
      ofSources noStatements ⟨"./src"⟩ "app" detour =
        ofSources noStatements ⟨"./src"⟩ "app" detour.reverse :=
  have permuted := (reverse_perm detour).symm
  have distinct := by decide
  ⟨permuted, distinct, (ofSources_perm _ _ _ permuted distinct).1⟩

end Program

end Haxify
