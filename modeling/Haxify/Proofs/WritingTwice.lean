import Haxify.Proofs.Writing

/-!
# Writing a plan twice

Main statement: a run that succeeded can be repeated, and the second run leaves every place as
the first one did. What a run needs for that is asked of the paths alone: no output lies below
another one, and the parents in them lead out of directories that are there from the start.
The plan of a program has such outputs wherever the output directory is.
-/

namespace Haxify.Emit

open List
open Haxe (Address)
open Files (Store Place)

variable {next after : Store} {outDir : Path}

/-- The store without the output directory, if the options ask for that. -/
def cleared (options : Options) (store : Store) : Store :=
  if options.Empties then
    { store with entries := Store.withoutBelow (store.aim options.outDir) store.entries }
  else store

theorem cleaned_cleared {options : Options} {store : Store}
    (below : options.Empties → store.aim options.outDir ≠ []) :
    Cleaned options store (cleared options store) := by
  rw [cleared]
  by_cases empties : options.Empties
  · rw [if_pos empties]
    refine ⟨rfl, fun place => ?_⟩
    rw [Store.entry?_withoutBelow store (below empties)]
    simp only [empties, true_and]
  · rw [if_neg empties]
    exact ⟨rfl, fun place => by rw [if_neg fun asked => empties asked.1]⟩

/-- A plan that can be carried out in a store as often as once: the outputs end in names, and
none lies below another; the parents on the way to the outputs and to an output directory that
is taken away lead out of directories that are not taken away with it; and such a directory is
not given by a dot, nor does it lie at or below an output. -/
structure Workable (options : Options) (plan : Plan) (store : Store) : Prop where
  tree : store.IsTree
  ends : ∀ output ∈ plan.outputs, (options.outDir.join output).EndsInStep
  /-- The parents on the way to the outputs lead out of directories. -/
  anchored : ∀ output ∈ plan.outputs, ∃ fixed names,
    (cleared options store).Anchored (options.outDir.join output) fixed names
  apart : ∀ first ∈ plan.outputs, ∀ second ∈ plan.outputs,
    store.aim (options.outDir.join first) <+: store.aim (options.outDir.join second) →
      store.aim (options.outDir.join first) = store.aim (options.outDir.join second)
  /-- The parents on the way to the output directory lead out of directories. -/
  directory : options.Empties → ∃ fixed names,
    (cleared options store).Anchored options.outDir fixed names
  plain : options.Empties → (Text.splitOn '/' options.outDir.text).getLast? ≠ some "."
  /-- The output directory neither is an output nor lies below one. -/
  outside : options.Empties → ∀ output ∈ plan.outputs,
    ¬store.aim (options.outDir.join output) <+: store.aim options.outDir

variable {options : Options} {plan : Plan} {store : Store} {tasks : List Task} {task : Task}

theorem workingDirectory_cleared (options : Options) (store : Store) :
    (cleared options store).workingDirectory = store.workingDirectory := by
  rw [cleared]
  split <;> rfl

variable (workable : Workable options plan store)
include workable

theorem Workable.cleaned : Cleaned options store (cleared options store) := by
  apply cleaned_cleared
  intro empties
  obtain ⟨fixed, names, anchored⟩ := workable.directory empties
  rw [← Store.aim_of_workingDirectory (workingDirectory_cleared options store)]
  exact anchored.aim_ne_nil

/-- An output directory that can be written to again: the parents in its path lead out of
directories that stay, and one that is taken away is given by a name. -/
structure Steady (options : Options) (store : Store) : Prop where
  tree : store.IsTree
  /-- The parents in the path lead out of directories. -/
  anchored : ∃ fixed names, options.outDir.steps = fixed ++ names ∧ ".." ∉ names ∧
    (cleared options store).Walks [] (store.origin options.outDir ++ fixed) ∧
    (options.Empties → names ≠ [])
  /-- A directory that is taken away is not given by a dot. -/
  plain : options.Empties → (Text.splitOn '/' options.outDir.text).getLast? ≠ some "."

omit workable in
/-- The plan of a program can be carried out again wherever the output directory can be
written to again. If that is taken away first, the outputs must lie below it. -/
theorem workable_make {grammar : Grammar} {root : Path} {basePackage : String}
    {sources : List (Path × String)} {program : Program}
    (assembled : Program.assemble grammar root basePackage sources = .ok program)
    (indent : String) (steady : Steady options store)
    (relative : options.Empties →
      ∀ output ∈ (Plan.make program indent).outputs, output.isAbsolute = false) :
    Workable options (Plan.make program indent) store := by
  obtain ⟨fixed, names, cut, down, walks, named⟩ := steady.anchored
  have origin_eq (path : Path) : (cleared options store).origin path = store.origin path := by
    rw [Store.origin, Store.origin, workingDirectory_cleared]
  have member {output : Path} (listed : output ∈ (Plan.make program indent).outputs) :
      ∃ address : Address, output = address.outputPath ∧ address.Below basePackage ∧
        '/' ∉ address.moduleName.toList := by
    rw [outputs_make] at listed
    obtain ⟨address, known, rfl⟩ := mem_map.mp listed
    have below := below_of_mem_modulesOf assembled known
    obtain ⟨_, _, _, no_slash⟩ := id below
    exact ⟨address, rfl, below, no_slash⟩
  refine ⟨steady.tree, fun output listed => ?_, fun output listed => ?_,
    fun first one second other => ?_, fun empties => ⟨fixed, names, cut, named empties, down, ?_⟩,
    steady.plain, fun empties output listed => ?_⟩
  · obtain ⟨address, rfl, _, no_slash⟩ := member listed
    exact (Address.endsInStep_outputPath no_slash).join _
  · obtain ⟨address, rfl, _, no_slash⟩ := member listed
    have leads := Address.parent_not_mem_steps no_slash
    have steps := Path.steps_join options.outDir address.outputPath
    obtain ⟨directories, own, _⟩ := Address.exists_steps_outputPath no_slash
    have some : address.outputPath.steps ≠ [] := by simp [own]
    by_cases absolute : address.outputPath.isAbsolute
    · -- From the root on there are only names.
      rw [if_pos absolute] at steps
      refine ⟨[], address.outputPath.steps, steps, some, leads, ?_⟩
      rw [Store.origin, Path.isAbsolute_join, absolute]
      exact Store.hasDirectory_root _
    · rw [if_neg absolute, cut, append_assoc] at steps
      refine ⟨fixed, names ++ address.outputPath.steps, steps, by simp [some], ?_, ?_⟩
      · simpa using ⟨down, leads⟩
      · rwa [origin_eq, Store.origin, Path.isAbsolute_join, (Bool.not_eq_true _).mp absolute,
          Bool.false_or, ← Store.origin]
  · obtain ⟨address, rfl, below, no_slash⟩ := member one
    obtain ⟨next, rfl, next_below, next_plain⟩ := member other
    rw [Store.aim_join store _ (Address.parent_not_mem_steps no_slash),
      Store.aim_join store _ (Address.parent_not_mem_steps next_plain),
      Address.isAbsolute_outputPath below, Address.isAbsolute_outputPath next_below]
    intro above
    rw [Address.steps_outputPath_eq_of_prefix no_slash next_plain
      ((prefix_append_right_inj _).mp above)]
  · rw [origin_eq]
    exact walks
  · have inside := relative empties output listed
    obtain ⟨address, rfl, _, no_slash⟩ := member listed
    obtain ⟨directories, own, _⟩ := Address.exists_steps_outputPath no_slash
    rw [Store.aim_join store _ (Address.parent_not_mem_steps no_slash), inside, own]
    intro above
    have shorter := above.length_le
    simp at shorter

omit workable in
theorem Plan.output_mem (member : task ∈ plan.tasks) : task.output ∈ plan.outputs :=
  plan.map_output_tasks ▸ mem_map_of_mem member

theorem Workable.ready {ready : Store}
    (tree : ready.IsTree) (same : ready.workingDirectory = store.workingDirectory)
    (keeps : ∀ place, (cleared options store).hasDirectory place → ready.hasDirectory place) :
    Ready options.outDir plan.tasks ready := by
  have still := same.trans workable.cleaned.workingDirectory.symm
  refine ⟨tree, fun task member => ?_, fun task member => workable.ends _ (Plan.output_mem member),
    fun first one second other => ?_⟩
  · obtain ⟨fixed, names, anchored⟩ := workable.anchored _ (Plan.output_mem member)
    exact ⟨fixed, names, anchored.mono still keeps⟩
  · rw [target_of_workingDirectory same]
    exact workable.apart _ (Plan.output_mem one) _ (Plan.output_mem other)

/-- The output directory can be taken away from every store that has the directories of the
cleared one, unless a file is in its place or on the way to it. -/
theorem Workable.prepare_cases
    (tree : next.IsTree) (same : next.workingDirectory = store.workingDirectory)
    (keeps : ∀ place, (cleared options store).hasDirectory place → next.hasDirectory place) :
    ((options.Empties → ¬next.Blocked (store.aim options.outDir)) ∧
        ∃ ready, (prepare options).evaluate next = (.ok (), ready) ∧
          Cleaned options next ready ∧ Ready options.outDir plan.tasks ready) ∨
      ((options.Empties ∧ next.Blocked (store.aim options.outDir)) ∧
        ∃ error after, (prepare options).evaluate next = (.error error, after)) := by
  have cleaned := workable.cleaned
  have still := same.trans cleaned.workingDirectory.symm
  have aims := Store.aim_of_workingDirectory same options.outDir
  have anchored (empties : options.Empties) :
      ∃ fixed names, next.Anchored options.outDir fixed names := by
    obtain ⟨fixed, names, anchored⟩ := workable.directory empties
    exact ⟨fixed, names, anchored.mono still keeps⟩
  have outcome := Emit.prepare_cases tree anchored workable.plain
  rw [aims] at outcome
  refine outcome.imp_left ?_
  rintro ⟨free, ready, run, prepared⟩
  refine ⟨free, ready, run, prepared,
    workable.ready (prepared.isTree tree) (prepared.workingDirectory.trans same) ?_⟩
  intro place directory
  -- What is left of the cleared store lies outside of the output directory.
  have outside : ¬(options.Empties ∧ store.aim options.outDir <+: place) := by
    intro inside
    rw [Store.hasDirectory, cleaned.entry?, if_pos inside] at directory
    exact absurd directory (by decide)
  have there := keeps place directory
  rwa [Store.hasDirectory, prepared.entry?, aims, if_neg outside]

/-- A run that succeeded carried out all tasks in the cleared store. It keeps what that has of
directories, and all targets are clear behind it. -/
theorem Workable.of_write {report : Report}
    (run : (write options plan).evaluate store = (.ok report, after)) :
    (options.Empties → ¬store.Blocked (store.aim options.outDir)) ∧
      Carried (cleared options store) after (target store options.outDir) plan.tasks ∧
      after.IsTree ∧
      (∀ place, (cleared options store).hasDirectory place → after.hasDirectory place) ∧
      ∀ task ∈ plan.tasks, after.Clear (target store options.outDir task) := by
  have cleaned := workable.cleaned
  have kept (place : Place) (directory : (cleared options store).hasDirectory place) :
      store.hasDirectory place := by
    rw [Store.hasDirectory_iff] at *
    exact cleaned.entry?_of_some directory
  rw [write_eq, evaluate_bind] at run
  rcases workable.prepare_cases workable.tree rfl kept with
    ⟨free, ready, prepared, same, can⟩ | ⟨_, error, last, failed⟩
  · rw [prepared] at run
    dsimp only at run
    have targets := target_of_workingDirectory same.workingDirectory options.outDir
    have entries (place : Place) :
        ready.entry? place = Store.entry? (cleared options store) place := by
      rw [same.entry?, cleaned.entry?]
    have clear := clear_of_run can rfl run
    obtain ⟨next, last, again, carried, tree, directories, stays, _⟩ :=
      run_of_clear can (rfl : (Report.empty options.outDir).outDir = _) clear
    rw [run] at again
    cases again
    rw [targets] at carried stays clear
    refine ⟨free, ?_, tree, fun place directory => directories place ?_, fun task member => ?_⟩
    · refine ⟨carried.workingDirectory.trans
        (same.workingDirectory.trans cleaned.workingDirectory.symm), fun place => ?_⟩
      rw [carried.entry?, entries]
    · rwa [Store.hasDirectory, entries]
    · refine stays task ?_ (clear task member)
      have apart := can.apart
      rw [targets] at apart
      exact apart.mono (by simp [member])
  · rw [failed] at run
    cases run

/-- A run succeeds in every store that has the directories of the cleared one, if no file is
in the place of an output directory that is taken away, or on the way to it, and all targets
are clear. If nothing is taken away and all targets are settled, it changes nothing. -/
theorem Workable.exists_write
    (tree : next.IsTree) (same : next.workingDirectory = store.workingDirectory)
    (keeps : ∀ place, (cleared options store).hasDirectory place → next.hasDirectory place)
    (free : options.Empties → ¬next.Blocked (store.aim options.outDir))
    (clear : ∀ task ∈ plan.tasks, next.Clear (target store options.outDir task)) :
    ∃ report last ready, (write options plan).evaluate next = (.ok report, last) ∧
      Cleaned options next ready ∧
      Carried ready last (target store options.outDir) plan.tasks ∧
      (¬options.Empties → (∀ task ∈ plan.tasks,
        next.entry? (target store options.outDir task) = task.left.map .file) → report.Quiet) := by
  rcases workable.prepare_cases tree same keeps with
    ⟨_, ready, prepared, cleaned, can⟩ | ⟨⟨empties, blocked⟩, _⟩
  · have targets := target_of_workingDirectory (cleaned.workingDirectory.trans same) options.outDir
    have ready_clear : ∀ task ∈ plan.tasks, ready.Clear (target ready options.outDir task) := by
      intro task member
      rw [targets]
      exact cleaned.clear (clear task member)
    obtain ⟨report, last, run, carried, _, _, _, quiet⟩ :=
      run_of_clear can (rfl : (Report.empty options.outDir).outDir = _) ready_clear
    rw [targets] at carried quiet
    refine ⟨report, last, ready, ?_, cleaned, carried, fun stays settled => quiet ?_ ?_⟩
    · rw [write_eq, evaluate_bind, prepared]
      exact run
    · intro task member
      rw [cleaned.entry?, if_neg fun asked => stays asked.1]
      exact settled task member
    · exact ⟨by simp [Report.empty], by simp [Report.empty], by simp [Report.empty]⟩
  · exact absurd blocked (free empties)

omit workable

theorem entry?_of_carried_again {ready again last : Store} {target : Task → Place}
    (cleaned : Cleaned options store ready) (carried : Carried ready after target tasks)
    (same : after.aim options.outDir = store.aim options.outDir)
    (recleaned : Cleaned options after again) (recarried : Carried again last target tasks)
    (place : Place) : last.entry? place = after.entry? place := by
  rw [recarried.entry?, recleaned.entry?, same, carried.entry?]
  by_cases listed : place ∈ tasks.map target
  · rw [if_pos listed, if_pos listed]
  · simp only [if_neg listed]
    by_cases inside : options.Empties ∧ store.aim options.outDir <+: place
    · have gone : ready.entry? place = none := by rw [cleaned.entry?, if_pos inside]
      simp only [if_pos inside, gone, and_true]
    · simp only [if_neg inside]
      by_cases made : (∃ task ∈ tasks, task.left.isSome ∧ place <+: target task) ∧
          ready.entry? place = none
      · simp [if_pos made]
      · simp only [if_neg made]

theorem lastLeft_of_nodup {target : Task → Place} (distinct : (tasks.map target).Nodup)
    (member : task ∈ tasks) : lastLeft target tasks (target task) = task.left := by
  induction tasks with
  | nil => cases member
  | cons first rest rest_left =>
    obtain ⟨outside, rest_distinct⟩ := nodup_cons.mp distinct
    rw [lastLeft]
    rcases mem_cons.mp member with rfl | behind
    · rw [if_neg outside]
    · rw [if_pos (mem_map_of_mem behind), rest_left rest_distinct behind]

theorem Ready.readText_eq (ready : Ready outDir tasks store)
    (member : task ∈ tasks) {text : String}
    (there : store.entry? (target store outDir task) = some (.file (.text text))) :
    store.readText (outDir.join task.output) = .ok text := by
  obtain ⟨fixed, names, anchored⟩ := ready.anchored task member
  have read := (anchored.read_eq_ok_iff ready.tree (ready.ends task member) _).mpr there
  rw [Store.readText, read]
  rfl

theorem Ready.isFile_eq (ready : Ready outDir tasks store)
    (member : task ∈ tasks) (gone : store.entry? (target store outDir task) = none) :
    store.isFile (outDir.join task.output) = false := by
  obtain ⟨fixed, names, anchored⟩ := ready.anchored task member
  rw [Store.isFile]
  split
  · rename_i contents found
    have read : store.read (outDir.join task.output) = .ok contents := by
      rw [Store.read, found]
      rfl
    have there := (anchored.read_eq_ok_iff ready.tree (ready.ends task member) _).mp read
    exact absurd (gone.symm.trans there) (by simp)
  · rfl

theorem Workable.not_blocked_after (workable : Workable options plan store)
    (carried : Carried (cleared options store) after (target store options.outDir) plan.tasks)
    (empties : options.Empties) (free : ¬store.Blocked (store.aim options.outDir)) :
    ¬after.Blocked (store.aim options.outDir) := by
  rintro ⟨front, contents, above, file⟩
  have outside : front ∉ plan.tasks.map (target store options.outDir) := by
    intro member
    obtain ⟨task, listed, rfl⟩ := mem_map.mp member
    exact workable.outside empties _ (Plan.output_mem listed) above
  rw [carried.entry?, if_neg outside] at file
  split at file
  · cases file
  · exact free ⟨front, contents, above, workable.cleaned.entry?_of_some file⟩

/-- A run that succeeded can be repeated, and the second run leaves every place as it is. If no
two outputs lead to one place, then behind the first run every module and every class of a
foreign module is in its file, and no file is where an abandoned source has its output. Unless
the output directory is taken away first, all other places are as they were but for missing
directories on the way to what was written, and the second run reports no change. -/
theorem write_twice (workable : Workable options plan store) {report : Report} {after : Store}
    (first : (write options plan).evaluate store = (.ok report, after)) :
    ∃ again last, (write options plan).evaluate after = (.ok again, last) ∧
      (∀ place, last.entry? place = after.entry? place) ∧
      ((plan.outputs.map fun output => store.aim (options.outDir.join output)).Nodup →
        (∀ file ∈ plan.files, ∀ made, file.result = .ok made →
          after.readText (options.outDir.join file.output) = .ok made.text) ∧
        (∀ made ∈ plan.externs,
          after.readText (options.outDir.join made.outputPath) = .ok made.text) ∧
        (∀ file ∈ plan.files, ∀ reason, file.result = .error reason →
          after.isFile (options.outDir.join file.output) = false) ∧
        (options.clean = false →
          (∀ place, (∀ output ∈ plan.outputs, store.aim (options.outDir.join output) ≠ place) →
            after.entry? place = store.entry? place ∨
              store.entry? place = none ∧ after.entry? place = some .directory ∧
                ∃ task ∈ plan.tasks, task.left.isSome ∧
                  place <+: store.aim (options.outDir.join task.output)) ∧
          again.Quiet)) := by
  have cleaned := workable.cleaned
  obtain ⟨free, carried, tree, directories, clear⟩ := workable.of_write first
  have same := carried.workingDirectory.trans cleaned.workingDirectory
  obtain ⟨again, last, ready, run, recleaned, recarried, quiet⟩ :=
    workable.exists_write tree same directories
      (fun empties => workable.not_blocked_after carried empties (free empties)) clear
  refine ⟨again, last, run, entry?_of_carried_again cleaned carried
    (Store.aim_of_workingDirectory same _) recleaned recarried, fun distinct => ?_⟩
  have targets := target_of_workingDirectory same options.outDir
  have after_ready := workable.ready tree same directories
  have apart : (plan.tasks.map (target store options.outDir)).Nodup := by
    rwa [← plan.map_output_tasks, map_map, Function.comp_def] at distinct
  have settled : ∀ task ∈ plan.tasks,
      after.entry? (target store options.outDir task) = task.left.map .file := by
    intro task member
    rw [carried.entry?, if_pos (mem_map_of_mem member), lastLeft_of_nodup apart member]
  have fromFile {file : PlannedFile} (member : file ∈ plan.files) : .file file ∈ plan.tasks :=
    mem_append_left _ (mem_map_of_mem member)
  refine ⟨fun file member made outcome => ?_, fun made member => ?_,
    fun file member reason outcome => ?_, fun keeps => ?_⟩
  · apply after_ready.readText_eq (fromFile member)
    rw [targets, settled _ (fromFile member), Task.left, outcome]
    rfl
  · have listed : .foreign made ∈ plan.tasks :=
      mem_append_right _ (mem_map_of_mem member)
    apply after_ready.readText_eq listed
    rw [targets, settled _ listed]
    rfl
  · apply after_ready.isFile_eq (fromFile member)
    rw [targets, settled _ (fromFile member), Task.left, outcome]
    rfl
  · have stays : ¬options.Empties := fun empties => by simp [empties.1] at keeps
    refine ⟨fun place outside => ?_, quiet stays settled⟩
    have unlisted : place ∉ plan.tasks.map (target store options.outDir) := by
      intro member
      obtain ⟨task, listed, there⟩ := mem_map.mp member
      exact outside _ (Plan.output_mem listed) there
    have kept : Store.entry? (cleared options store) place = store.entry? place := by
      rw [cleaned.entry?, if_neg fun asked => stays asked.1]
    have entry := carried.entry? place
    rw [if_neg unlisted, kept] at entry
    split at entry
    · rename_i made
      exact .inr ⟨made.2, entry, made.1⟩
    · exact .inl entry

namespace Sample

def halfGrammar : Grammar := fun _ text =>
  let token (kind : String) : TypeScript.Token := ⟨kind, true, false, "", 0, 0, ⟨1, 1⟩, text⟩
  some (.node (token "program") ()
    (if text == "" then [] else [.node (token "with_statement") () []]))

def half : List (Path × String) := [(⟨"/p/a.ts"⟩, "with"), (⟨"/p/b.ts"⟩, "")]

def halfProgram : Except ProjectError Program :=
  Program.assemble halfGrammar ⟨"/p"⟩ "app" half

theorem halfProgram_eq : halfProgram =
    (half.foldlM (fun files (item : Path × String) =>
      Program.addSource halfGrammar ⟨"/p"⟩ "app" files item.1 item.2) []).map
        fun files => ⟨none, ⟨"/p"⟩, "app", files⟩ :=
  Program.assemble_of_sorted (by decide)

def stale : Store :=
  { workingDirectory := ⟨"/p"⟩
    entries := [(["p"], .directory), (["p", "dist"], .directory),
      (["p", "dist", "app"], .directory),
      (["p", "dist", "app", "A.hx"], .file (.text "old"))] }

def toDirectory (outDir : String) (clean : Bool) : Options :=
  ⟨⟨outDir⟩, "app", .usual, clean, false⟩

structure Told where
  changed : Option (List Bool)
  /-- Which modules of earlier runs it says it removed, if it succeeds. -/
  removed : Option (List Bool)
  there : Bool
deriving DecidableEq

def twice (plan : Plan) (options : Options) (path : String) : List Told :=
  let first := (write options plan).evaluate stale
  let second := (write options plan).evaluate first.2
  [first, second].map fun outcome =>
    { changed := outcome.1.toOption.map fun report => report.written.map (·.changed)
      removed := outcome.1.toOption.map fun report => report.abandoned.map (·.removed.isSome)
      there := outcome.2.isFile ⟨path⟩ }

theorem steady_stale : Steady (toDirectory "dist" false) stale := by
  have start : stale.origin (toDirectory "dist" false).outDir = ["p"] := by decide
  refine ⟨Store.isTree_of_entries (by decide), ⟨[], ["dist"], ?_⟩, by decide⟩
  refine ⟨by decide, by decide, ?_, by decide⟩
  rw [start]
  exact ⟨rfl, rfl⟩

theorem written_dist : (halfProgram.toOption.map fun program =>
    let plan := Plan.make program "  "
    decide (plan.outputs.map fun output => stale.aim ((⟨"dist"⟩ : Path).join output)).Nodup &&
      ((write (toDirectory "dist" false) plan).evaluate stale).1.isOk) = some true := by
  rw [halfProgram_eq]
  decide +kernel

end Sample

open Sample

/-- A program with an abandoned source is written twice, and the second run changes nothing. -/
theorem half_program_written_twice :
    ∃ program report after again last, halfProgram = .ok program ∧
      (write (toDirectory "dist" false) (Plan.make program "  ")).evaluate stale =
        (.ok report, after) ∧
      (write (toDirectory "dist" false) (Plan.make program "  ")).evaluate after =
        (.ok again, last) ∧
      (∀ place, last.entry? place = after.entry? place) ∧ again.Quiet := by
  have checked := written_dist
  cases made : halfProgram with
  | error reason => simp [made, Except.toOption] at checked
  | ok program =>
    rw [made] at checked
    obtain ⟨distinct, succeeds⟩ := (Bool.and_eq_true_iff).mp (Option.some.inj checked)
    obtain ⟨report, written⟩ := Program.exists_eq_ok succeeds
    have outcome := Prod.ext (y := (_, _)) written rfl
    have keeps : ¬(toDirectory "dist" false).Empties := by decide
    have workable := workable_make made "  " steady_stale fun empties => absurd empties keeps
    obtain ⟨again, last, run, same, facts⟩ := write_twice workable outcome
    exact ⟨program, report, _, again, last, rfl, outcome, run, same,
      ((facts (of_decide_eq_true distinct)).2.2.2 rfl).2⟩

/-- Not every run that succeeded is repeated without a change. Where the output directory is
taken away first, the second run reports the same changes. By way of a missing directory the
first run does not find the stale file but makes that directory, and the second run removes
the file. An output directory given by a dot is emptied by the second run, which then fails. -/
theorem repeated_runs_differ :
    (halfProgram.toOption.map fun program =>
      let twice := twice (Plan.make program "  ")
      [twice (toDirectory "dist" true) "dist/app/B.hx",
        twice (toDirectory "none/../dist" false) "dist/app/A.hx",
        twice (toDirectory "out/." true) "out/app/B.hx"]) =
      some [[⟨some [true], some [false], true⟩, ⟨some [true], some [false], true⟩],
        [⟨some [true], some [false], true⟩, ⟨some [false], some [true], false⟩],
        [⟨some [true], some [false], true⟩, ⟨none, none, false⟩]] := by
  rw [halfProgram_eq]
  decide +kernel

end Haxify.Emit
