import Haxify.Emit.Plan
import Haxify.Proofs.Program
import Haxify.Proofs.Registry

/-!
# Which outputs a plan claims

The modules of a plan are those made of files and the extern classes. No two of them have
the same address, because a file with a claimed address is refused and an extern class is
given a free name. They are kept apart by their packages as texts, while an output path
leaves out the empty segments of a package. Main statement: the outputs of a plan are
distinct exactly when no two modules of one name differ in empty segments only, and so they
are whenever directory names neither begin nor end with a dot nor have two in a row.
-/

namespace Haxify

open List
open Haxe (Address)

variable {address : Address}

namespace Emit

open Foreign

def Plan.outputs (plan : Plan) : List Path :=
  plan.files.map (·.output) ++ plan.externs.map (·.outputPath)

def modulesOf (program : Program) : List Address :=
  Program.addresses program.files ++ (registryOf program).bindings.map (·.address)

theorem outputs_make (program : Program) (indent : String) :
    (Plan.make program indent).outputs = (modulesOf program).map (·.outputPath) := by
  rw [Plan.outputs, Plan.make, modulesOf, map_append, ← Program.map_address_lowered]
  simp only [map_map]
  rfl

namespace Sample

def emptyGrammar : Grammar := fun _ _ =>
  some (.node ⟨"program", true, false, "", 0, 0, ⟨1, 1⟩, ""⟩ () [])

def hidden : List (Path × String) :=
  [(⟨"/project/.config/x.ts"⟩, ""), (⟨"/project/config/x.ts"⟩, "")]

def assembled : Except ProjectError Program :=
  Program.assemble emptyGrammar ⟨"/project"⟩ "app" hidden

theorem assembled_eq : assembled =
    (hidden.foldlM (fun files (item : Path × String) =>
      Program.addSource emptyGrammar ⟨"/project"⟩ "app" files item.1 item.2) []).map
        fun files => ⟨none, ⟨"/project"⟩, "app", files⟩ :=
  Program.assemble_of_sorted (by decide)

end Sample

variable {grammar : Grammar} {root : Path} {basePackage : String}
  {sources : List (Path × String)} {program : Program}

theorem address_ne_of_mem_registry {binding : Binding} {file : SourceFile}
    (known : file ∈ program.files) (member : binding ∈ (registryOf program).bindings) :
    file.address ≠ binding.address := by
  intro same
  obtain ⟨inside, free, _⟩ := mem_assign member
  have claimed : file.address ∈ (program.files.map (·.address)).filter
      (·.packagePath == Registry.packageOf program.basePackage) := by
    refine mem_filter.mpr ⟨mem_map_of_mem known, ?_⟩
    rw [same, inside, beq_self_eq_true]
  have taken := mem_map_of_mem (f := fun address : Address => address.moduleName) claimed
  rw [same] at taken
  exact free taken

variable (assembled : Program.assemble grammar root basePackage sources = .ok program)
include assembled

theorem nodup_modulesOf : (modulesOf program).Nodup := by
  refine nodup_append'.mpr ⟨Program.nodup_addresses assembled, nodup_assign _ _ _, ?_⟩
  intro address ofFile ofExtern
  obtain ⟨file, kept, rfl⟩ := mem_map.mp ofFile
  obtain ⟨binding, listed, same⟩ := mem_map.mp ofExtern
  exact address_ne_of_mem_registry (mem_filter.mp kept).1 listed same.symm

theorem below_of_mem_modulesOf (member : address ∈ modulesOf program) :
    address.Below basePackage := by
  rcases mem_append.mp member with ofFile | ofExtern
  · obtain ⟨file, kept, rfl⟩ := mem_map.mp ofFile
    rw [Program.address_eq_ofSource assembled file (mem_filter.mp kept).1]
    exact Address.ofSource_below _ _
  · obtain ⟨binding, listed, rfl⟩ := mem_map.mp ofExtern
    obtain ⟨inside, _, plain⟩ := mem_assign listed
    rw [← Program.basePackage_of_assemble assembled]
    have below : Address.Below program.basePackage
        ⟨Registry.packageOf program.basePackage, binding.address.moduleName⟩ :=
      packageOf_below plain
    rwa [← inside] at below

theorem nodup_outputs_iff (indent : String) :
    ((Plan.make program indent).outputs.map Path.components).Nodup ↔
      ∀ first ∈ modulesOf program, ∀ second ∈ modulesOf program,
        first.moduleName = second.moduleName → first.segments = second.segments →
          first.packagePath = second.packagePath := by
  have same_iff {first second : Address} (one : first ∈ modulesOf program)
      (other : second ∈ modulesOf program) :
      first.outputPath.components = second.outputPath.components ↔
        first.segments = second.segments ∧ first.moduleName = second.moduleName :=
    Address.components_outputPath_eq_iff (below_of_mem_modulesOf assembled one)
      (below_of_mem_modulesOf assembled other)
  rw [outputs_make, map_map, nodup_map_iff_inj_on (nodup_modulesOf assembled)]
  constructor
  · intro separate first one second other names segments
    have equal := separate first one second other ((same_iff one other).mpr ⟨segments, names⟩)
    rw [equal]
  · intro told first one second other place
    obtain ⟨segments, names⟩ := (same_iff one other).mp place
    have packages := told first one second other names segments
    cases first
    cases second
    exact congrArg₂ Address.mk packages names

theorem joinWith_segments_of_clean
    (clean : ∀ file ∈ program.files, file.isLowered →
      ∀ directory ∈ (Address.namesOf file.relative).dropLast, Address.CleanPart directory)
    (member : address ∈ modulesOf program) :
    Text.joinWith "." address.segments = address.packagePath := by
  rcases mem_append.mp member with ofFile | ofExtern
  · obtain ⟨file, kept, rfl⟩ := mem_map.mp ofFile
    obtain ⟨known, lowered⟩ := mem_filter.mp kept
    rw [Program.address_eq_ofSource assembled file known]
    exact Address.ofSource_clean (clean file known lowered)
  · obtain ⟨binding, listed, rfl⟩ := mem_map.mp ofExtern
    have whole := packageOf_clean program.basePackage binding.address.moduleName
    rwa [← (mem_assign listed).1] at whole

omit assembled

/-- No two modules of a plan have one address. Their outputs are distinct exactly when no
two modules of one name have packages that differ in empty segments only, and so they are
if every directory name is clean. -/
theorem plan_outputs_distinct_iff
    (assembled : Program.assemble grammar root basePackage sources = .ok program)
    (indent : String) :
    (modulesOf program).Nodup ∧
      (((Plan.make program indent).outputs.map Path.components).Nodup ↔
        ∀ first ∈ modulesOf program, ∀ second ∈ modulesOf program,
          first.moduleName = second.moduleName → first.segments = second.segments →
            first.packagePath = second.packagePath) ∧
      ((∀ file ∈ program.files, file.isLowered →
          ∀ directory ∈ (Address.namesOf file.relative).dropLast, Address.CleanPart directory) →
        ((Plan.make program indent).outputs.map Path.components).Nodup) := by
  refine ⟨nodup_modulesOf assembled, nodup_outputs_iff assembled indent, fun clean => ?_⟩
  apply (nodup_outputs_iff assembled indent).mpr
  intro first one second other _ segments
  rw [← joinWith_segments_of_clean assembled clean one,
    ← joinWith_segments_of_clean assembled clean other, segments]

/-- The program with a hidden directory is accepted, and its modules have addresses of
their own. -/
theorem hidden_directory_accepted :
    ∃ program, Sample.assembled = .ok program ∧ (modulesOf program).Nodup := by
  have accepted : Sample.assembled.isOk := by
    rw [Sample.assembled_eq]
    decide
  obtain ⟨program, outcome⟩ := Program.exists_eq_ok accepted
  exact ⟨program, outcome, (plan_outputs_distinct_iff outcome "  ").1⟩

/-- Two modules of one program are written to the same file. -/
theorem hidden_directory_collides :
    (Sample.assembled.toOption.map fun program =>
      (Plan.make program "  ").outputs.map (·.text)) =
        some ["app/config/X.hx", "app/config/X.hx"] := by
  rw [Sample.assembled_eq]
  decide

end Emit

end Haxify
