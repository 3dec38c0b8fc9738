import Haxify.Emit.Write
import Haxify.Proofs.Outputs
import Haxify.Proofs.StoreOperations

/-!
# Writing a plan

A plan is carried out file by file. Each step leaves one place with a file or with nothing,
makes the directories that are missing on the way to a file, and changes nothing else; it
fails exactly when a file is on the way to its place or a directory is at it. What stands at
each place after a run follows from the last step for that place.
-/

namespace Haxify.Emit

open List
open Files (Store Place Contents Failure)

variable {store : Store} {report : Report} {outDir : Path}

/-- What is done for one file of a plan. -/
inductive Task where
  | file (planned : PlannedFile)
  | foreign (made : Haxe.File)

namespace Task

/-- Where the file goes, below the output directory. -/
def output : Task → Path
  | .file planned => planned.output
  | .foreign made => made.outputPath

/-- What a task leaves at its place. -/
def left : Task → Option Contents
  | .file planned => planned.result.toOption.map fun made => .text made.text
  | .foreign made => some (.text made.text)

def perform (report : Report) : Task → Disk Report
  | .file planned => writeFile report planned
  | .foreign made => writeExtern report made

end Task

def Plan.tasks (plan : Plan) : List Task :=
  plan.files.map .file ++ plan.externs.map .foreign

theorem Plan.map_output_tasks (plan : Plan) : plan.tasks.map Task.output = plan.outputs := by
  rw [tasks, outputs, map_append, map_map, map_map]
  rfl

/-- Empties the output directory if that is asked for. -/
def prepare (options : Options) : Disk Unit :=
  if options.clean then cleanDirectory options.outDir else pure ()

theorem write_eq (options : Options) (plan : Plan) :
    write options plan =
      prepare options >>= fun _ => plan.tasks.foldlM Task.perform (.empty options.outDir) := by
  rw [write, Plan.tasks, prepare]
  simp only [foldlM_append, foldlM_map]
  cases options.clean <;> rfl

section Steps

variable {α β : Type} {store : Store}

theorem evaluate_bind (first : Disk α) (next : α → Disk β) :
    (first >>= next).evaluate store =
      match first.evaluate store with
      | (.ok value, between) => (next value).evaluate between
      | (.error reason, between) => (.error reason, between) := by
  simp only [Disk.evaluate, bind, ExceptT.bind, ExceptT.mk, StateT.bind]
  cases first store with
  | mk result between => cases result <;> rfl

theorem evaluate_get : (get : Disk Store).evaluate store = (.ok store, store) := rfl

theorem evaluate_commit (error : Failure → WriteError) (result : Except Failure Store) :
    (commit error result).evaluate store =
      match result with
      | .ok after => (.ok (), after)
      | .error failure => (.error (error failure), store) := by
  cases result <;> rfl

theorem evaluate_place (path : Path) (text : String) :
    (place path text).evaluate store =
      if store.read path = .ok (.text text) then (.ok false, store)
      else
        match store.makeDirectories path.directory with
        | .error failure => (.error (.create path.directory failure), store)
        | .ok made =>
          match made.write path (.text text) with
          | .error failure => (.error (.replace path failure), made)
          | .ok after => (.ok true, after) := by
  have put : (do
      commit (.create path.directory) ((← get).makeDirectories path.directory)
      commit (.replace path) ((← get).write path (.text text))
      return true : Disk Bool).evaluate store =
        match store.makeDirectories path.directory with
        | .error failure => (.error (.create path.directory failure), store)
        | .ok made =>
          match made.write path (.text text) with
          | .error failure => (.error (.replace path failure), made)
          | .ok after => (.ok true, after) := by
    simp only [evaluate_bind, evaluate_get, evaluate_commit]
    cases store.makeDirectories path.directory with
    | error failure => rfl
    | ok made =>
      dsimp only
      cases made.write path (.text text) <;> rfl
  rw [place, evaluate_bind, evaluate_get, ← put]
  dsimp only
  cases reading : store.read path with
  | error failure => rw [if_neg (by simp)]
  | ok contents =>
    cases contents with
    | bytes raw => rw [if_neg (by simp)]
    | text present =>
      by_cases same : present = text
      · rw [same, if_pos rfl]
        dsimp only
        rw [if_pos rfl]
        rfl
      · rw [if_neg (by simpa using same)]
        dsimp only
        rw [if_neg same]

theorem evaluate_removeStale (path : Path) :
    (removeStale path).evaluate store =
      match store.removeFile path with
      | .ok after => (.ok true, after)
      | .error .notFound => (.ok false, store)
      | .error failure => (.error (.remove path failure), store) := by
  rw [removeStale, evaluate_bind, evaluate_get]
  dsimp only
  cases store.removeFile path with
  | ok after => rfl
  | error failure => cases failure <;> rfl

theorem evaluate_cleanDirectory (path : Path) :
    (cleanDirectory path).evaluate store =
      match store.removeDirectories path with
      | (.ok _, after) => (.ok (), after)
      | (.error .notFound, after) => (.ok (), after)
      | (.error failure, after) => (.error (.clean path failure), after) := by
  rw [cleanDirectory, evaluate_bind, evaluate_get]
  dsimp only
  cases store.removeDirectories path with
  | mk result after =>
    cases result with
    | ok => rfl
    | error failure => cases failure <;> rfl

/-- A step that is taken exactly if a place is clear. It settles the place, and it tells of no
change if the place was settled. -/
def Attempts (store : Store) (place : Place) (left : Option Contents) (step : Disk Bool) : Prop :=
  (store.Clear place ∧
      ∃ changed after, step.evaluate store = (.ok changed, after) ∧
        store.Settles after place left ∧ (store.entry? place = left.map .file → changed = false)) ∨
    (¬store.Clear place ∧ ∃ error after, step.evaluate store = (.error error, after))

variable {path : Path} {fixed names : List String}

theorem attempts_place (anchored : store.Anchored path fixed names) (tree : store.IsTree)
    (ends : path.EndsInStep) (text : String) :
    Attempts store (store.aim path) (some (.text text)) (place path text) := by
  have below := anchored.aim_ne_nil
  have reads := anchored.read_eq_ok_iff tree ends (.text text)
  rw [Attempts, evaluate_place]
  by_cases there : store.entry? (store.aim path) = some (.file (.text text))
  · -- The text is there, and so are all directories on the way.
    have directory := tree (store.aim path) (by rw [there]; rfl)
    refine .inl ⟨⟨tree.not_blocked directory, Store.not_hasDirectory_of_file there⟩, false, store,
      if_pos (reads.mpr there), ⟨rfl, fun other => ?_⟩, fun _ => rfl⟩
    by_cases same : other = store.aim path
    · rw [if_pos same, same, there]
      rfl
    · have known := Store.Filled.entry? (Store.Filled.refl tree directory) other
      rw [if_neg same, if_neg]
      · rintro ⟨_, above, missing⟩
        rw [if_pos ⟨Store.prefix_dropLast above same, missing⟩, missing] at known
        cases known
  · rw [if_neg (fun read => there (reads.mp read))]
    rcases anchored.makeDirectories_cases tree with ⟨free, made, run, filled⟩ |
      ⟨blocked, failure, run⟩
    · rw [run]
      dsimp only
      rcases anchored.write_cases tree ends free filled (.text text) with
        ⟨vacant, after, written, settles⟩ | ⟨directory, refused⟩
      · rw [written]
        exact .inl ⟨⟨free, vacant⟩, true, after, rfl, settles, fun same => absurd same there⟩
      · rw [refused]
        exact .inr ⟨fun clear => clear.vacant directory, _, _, rfl⟩
    · rw [run]
      exact .inr ⟨fun clear => clear.way blocked, _, _, rfl⟩

theorem attempts_removeStale (anchored : store.Anchored path fixed names) (tree : store.IsTree)
    (ends : path.EndsInStep) : Attempts store (store.aim path) none (removeStale path) := by
  rw [Attempts, evaluate_removeStale]
  rcases anchored.removeFile_cases tree ends with
    ⟨clear, ⟨missing, run⟩ | ⟨contents, after, there, run, settles⟩⟩ |
      ⟨unclear, failure, other, run⟩
  · rw [run]
    refine .inl ⟨clear, false, store, rfl, ⟨rfl, fun other => ?_⟩, fun _ => rfl⟩
    by_cases same : other = store.aim path
    · rw [if_pos same, same, missing]
      rfl
    · rw [if_neg same, if_neg (by simp)]
  · rw [run]
    refine .inl ⟨clear, true, after, rfl, settles, fun missing => ?_⟩
    rw [missing] at there
    cases there
  · rw [run]
    refine .inr ⟨unclear, ?_⟩
    cases failure <;> first | exact absurd rfl other | exact ⟨_, _, rfl⟩

end Steps

variable {task : Task} {place : Place}

/-- A report of a run that changed nothing. -/
structure Report.Quiet (report : Report) : Prop where
  written : ∀ file ∈ report.written, file.changed = false
  abandoned : ∀ file ∈ report.abandoned, file.removed = none
  externs : ∀ file ∈ report.externs, file.changed = false

/-- A task that attempts one step and records it is carried out exactly if the place is clear.
It settles the place, and the report stays quiet if the place was settled. -/
theorem Attempts.perform
    {step : Disk Bool} (attempts : Attempts store place task.left step) (record : Bool → Report)
    (performs : task.perform report = step >>= fun changed => pure (record changed))
    (outDir : ∀ changed, (record changed).outDir = report.outDir)
    (quiet : report.Quiet → (record false).Quiet) :
    (store.Clear place ∧
        ∃ next after, (task.perform report).evaluate store = (.ok next, after) ∧
          store.Settles after place task.left ∧ next.outDir = report.outDir ∧
          (store.entry? place = task.left.map .file → report.Quiet → next.Quiet)) ∨
      (¬store.Clear place ∧
        ∃ error after, (task.perform report).evaluate store = (.error error, after)) := by
  rw [performs, evaluate_bind]
  rcases attempts with ⟨clear, changed, after, run, settles, same⟩ | ⟨unclear, error, after, run⟩
  · rw [run]
    refine .inl ⟨clear, _, after, rfl, settles, outDir changed, fun there before => ?_⟩
    rw [same there]
    exact quiet before
  · rw [run]
    exact .inr ⟨unclear, error, after, rfl⟩

theorem perform_cases {fixed names : List String}
    (anchored : store.Anchored (report.outDir.join task.output) fixed names)
    (tree : store.IsTree) (ends : (report.outDir.join task.output).EndsInStep) :
    (store.Clear (store.aim (report.outDir.join task.output)) ∧
        ∃ next after, (task.perform report).evaluate store = (.ok next, after) ∧
          store.Settles after (store.aim (report.outDir.join task.output)) task.left ∧
          next.outDir = report.outDir ∧
          (store.entry? (store.aim (report.outDir.join task.output)) = task.left.map .file →
            report.Quiet → next.Quiet)) ∨
      (¬store.Clear (store.aim (report.outDir.join task.output)) ∧
        ∃ error after, (task.perform report).evaluate store = (.error error, after)) := by
  cases task with
  | foreign made =>
    have attempts := attempts_place anchored tree ends made.text
    refine attempts.perform (fun changed => { report with externs := report.externs ++
      [⟨none, made.outputPath, made.address.qualified, changed⟩] }) ?_ (fun _ => rfl) ?_
    · rw [Task.perform, writeExtern, placeModule]
      simp only [bind_assoc, pure_bind]
      rfl
    · rintro ⟨written, abandoned, externs⟩
      exact ⟨written, abandoned, forall_mem_append.mpr ⟨externs, forall_mem_singleton.mpr rfl⟩⟩
  | file planned =>
    cases outcome : planned.result with
    | ok made =>
      have left : Task.left (.file planned) = some (.text made.text) := by
        rw [Task.left, outcome]
        rfl
      have attempts := attempts_place anchored tree ends made.text
      rw [← left] at attempts
      refine attempts.perform (fun changed => { report with written := report.written ++
        [⟨some planned.source, planned.output, made.address.qualified, changed⟩] })
        ?_ (fun _ => rfl) ?_
      · rw [Task.perform, writeFile, outcome]
        simp only [placeModule, bind_assoc, pure_bind]
        rfl
      · rintro ⟨written, abandoned, externs⟩
        exact ⟨forall_mem_append.mpr ⟨written, forall_mem_singleton.mpr rfl⟩, abandoned, externs⟩
    | error reason =>
      have left : Task.left (.file planned) = none := by
        rw [Task.left, outcome]
        rfl
      have attempts := attempts_removeStale anchored tree ends
      rw [← left] at attempts
      refine attempts.perform (fun removed => { report with abandoned := report.abandoned ++
        [⟨planned.source, reason, if removed then some planned.output else none⟩] })
        ?_ (fun _ => rfl) ?_
      · rw [Task.perform, writeFile, outcome]
        rfl
      · rintro ⟨written, abandoned, externs⟩
        exact ⟨written, forall_mem_append.mpr ⟨abandoned, forall_mem_singleton.mpr rfl⟩, externs⟩

def lastLeft (target : Task → Place) : List Task → Place → Option Contents
  | [], _ => none
  | task :: rest, place =>
    if place ∈ rest.map target then lastLeft target rest place else task.left

/-- A store in which all tasks were carried out, each at its target: the targets hold what
their last task leaves, missing directories on the way to files were made, and nothing else
changed. -/
structure Carried (store after : Store) (target : Task → Place) (tasks : List Task) : Prop where
  workingDirectory : after.workingDirectory = store.workingDirectory
  entry? : ∀ place, after.entry? place =
    if place ∈ tasks.map target then (lastLeft target tasks place).map .file
    else if (∃ task ∈ tasks, task.left.isSome ∧ place <+: target task) ∧
      store.entry? place = none then some .directory
    else store.entry? place

/-- Tasks whose targets do not lie below each other. -/
def Apart (target : Task → Place) (tasks : List Task) : Prop :=
  ∀ first ∈ tasks, ∀ second ∈ tasks, target first <+: target second → target first = target second

theorem Apart.mono {target : Task → Place} {tasks others : List Task} (apart : Apart target tasks)
    (subset : others ⊆ tasks) : Apart target others :=
  fun first one second other => apart first (subset one) second (subset other)

theorem Carried.cons {between after : Store} {target : Task → Place}
    {rest : List Task} (apart : Apart target (task :: rest))
    (settles : store.Settles between (target task) task.left)
    (carried : Carried between after target rest) : Carried store after target (task :: rest) := by
  refine ⟨carried.workingDirectory.trans settles.workingDirectory, fun place => ?_⟩
  rw [carried.entry?, lastLeft]
  by_cases later : place ∈ rest.map target
  · have listed : place ∈ (task :: rest).map target := mem_cons_of_mem _ later
    rw [if_pos later, if_pos listed, if_pos later]
  · rw [if_neg later, if_neg later]
    by_cases here : place = target task
    · have none : ¬∃ other ∈ rest, other.left.isSome ∧ place <+: target other := by
        rintro ⟨other, member, _, above⟩
        rw [here] at above
        have same := apart task (.head _) other (.tail _ member) above
        exact later (mem_map.mpr ⟨other, member, by rw [here, same]⟩)
      rw [if_neg fun both => none both.1, if_pos (by simp [here]), settles.entry?, if_pos here]
    · have outside : place ∉ (task :: rest).map target := by
        rw [map_cons, mem_cons]
        exact not_or.mpr ⟨here, later⟩
      have first_entry := settles.entry? place
      rw [if_neg here] at first_entry
      rw [if_neg outside, first_entry]
      by_cases missing : store.entry? place = none
      · by_cases first : task.left.isSome ∧ place <+: target task
        all_goals simp [missing, first]
      · simp [missing]

/-- The place that a task writes to. -/
def target (store : Store) (outDir : Path) (task : Task) : Place :=
  store.aim (outDir.join task.output)

theorem target_of_workingDirectory {other : Store}
    (same : other.workingDirectory = store.workingDirectory) (outDir : Path) :
    target other outDir = target store outDir := by
  funext task
  exact Store.aim_of_workingDirectory same _

/-- A store in which tasks can be followed to their outputs. -/
structure Ready (outDir : Path) (tasks : List Task) (store : Store) : Prop where
  tree : store.IsTree
  /-- The parents on the way to an output lead out of directories. -/
  anchored : ∀ task ∈ tasks, ∃ fixed names, store.Anchored (outDir.join task.output) fixed names
  ends : ∀ task ∈ tasks, (outDir.join task.output).EndsInStep
  apart : Apart (target store outDir) tasks

theorem Ready.mono {tasks others : List Task} {after : Store}
    (ready : Ready outDir tasks store) (subset : others ⊆ tasks) (tree : after.IsTree)
    (same : after.workingDirectory = store.workingDirectory)
    (keeps : ∀ place, store.hasDirectory place → after.hasDirectory place) :
    Ready outDir others after := by
  refine ⟨tree, ?_, fun task member => ready.ends task (subset member), ?_⟩
  · intro task member
    obtain ⟨fixed, names, anchored⟩ := ready.anchored task (subset member)
    exact ⟨fixed, names, anchored.mono same keeps⟩
  · rw [target_of_workingDirectory same]
    exact ready.apart.mono subset

/-- If all targets are clear, a run succeeds. It carries out all tasks, keeps all directories
and what is clear, and is quiet where all targets are settled already. -/
theorem run_of_clear {tasks : List Task} (ready : Ready outDir tasks store)
    (inside : report.outDir = outDir)
    (clear : ∀ task ∈ tasks, store.Clear (target store outDir task)) :
    ∃ next after, (tasks.foldlM Task.perform report).evaluate store = (.ok next, after) ∧
      Carried store after (target store outDir) tasks ∧ after.IsTree ∧
      (∀ place, store.hasDirectory place → after.hasDirectory place) ∧
      (∀ task, Apart (target store outDir) (task :: tasks) →
        store.Clear (target store outDir task) → after.Clear (target store outDir task)) ∧
      ((∀ task ∈ tasks, store.entry? (target store outDir task) = task.left.map .file) →
        report.Quiet → next.Quiet) := by
  induction tasks generalizing store report with
  | nil =>
    exact ⟨report, store, rfl, ⟨rfl, fun _ => by simp⟩, ready.tree, fun _ => id,
      fun _ _ => id, fun _ => id⟩
  | cons task rest rest_run =>
    subst inside
    have here := clear task (.head _)
    obtain ⟨fixed, names, anchored⟩ := ready.anchored task (.head _)
    rcases perform_cases anchored ready.tree (ready.ends task (.head _)) with
      ⟨_, next, between, run, settles, inside, quiet⟩ | ⟨unclear, _⟩
    · have targets := target_of_workingDirectory settles.workingDirectory report.outDir
      have between_ready := ready.mono (subset_cons_self task rest)
        (settles.isTree ready.tree here) settles.workingDirectory fun _ => settles.hasDirectory here
      have keeps {other : Task} (apart : Apart (target store report.outDir) [other, task]) :
          between.Clear (target store report.outDir other) ↔
            store.Clear (target store report.outDir other) :=
        settles.clear_iff here (apart task (by simp) other (by simp))
          (apart other (by simp) task (by simp))
      have rest_clear : ∀ other ∈ rest, between.Clear (target between report.outDir other) := by
        intro other member
        rw [targets]
        refine (keeps (ready.apart.mono ?_)).mpr (clear other (.tail _ member))
        simp [member]
      obtain ⟨last, after, rest_run, carried, tree, directories, stays, rest_quiet⟩ :=
        rest_run between_ready inside rest_clear
      rw [targets] at carried stays rest_quiet
      refine ⟨last, after, ?_, .cons ready.apart settles carried, tree,
        fun place directory => directories place (settles.hasDirectory here directory), ?_, ?_⟩
      · rw [foldlM_cons, evaluate_bind, run]
        exact rest_run
      · intro other apart known
        refine stays other (apart.mono ?_) ((keeps (apart.mono ?_)).mpr known)
        · exact cons_subset_cons other (subset_cons_self task rest)
        · simp
      · intro settled first_quiet
        refine rest_quiet ?_ (quiet (settled task (.head _)) first_quiet)
        intro other member
        have known := settled other (.tail _ member)
        rw [← known, settles.entry?]
        split
        · rename_i same
          rw [show target store report.outDir other = target store report.outDir task from same]
          exact (settled task (.head _)).symm
        · rename_i different
          rw [if_neg fun new =>
            different (ready.apart other (.tail _ member) task (.head _) new.2.1)]
    · exact absurd here unclear

theorem clear_of_run {tasks : List Task} (ready : Ready outDir tasks store) {next : Report}
    {after : Store}
    (inside : report.outDir = outDir)
    (run : (tasks.foldlM Task.perform report).evaluate store = (.ok next, after)) :
    ∀ task ∈ tasks, store.Clear (target store outDir task) := by
  induction tasks generalizing store report with
  | nil => simp
  | cons task rest rest_clear =>
    subst inside
    obtain ⟨fixed, names, anchored⟩ := ready.anchored task (.head _)
    rw [foldlM_cons, evaluate_bind] at run
    rcases perform_cases anchored ready.tree (ready.ends task (.head _)) with
      ⟨here, middle, between, first, settles, inside, _⟩ | ⟨_, error, last, first⟩
    · rw [first] at run
      have targets := target_of_workingDirectory settles.workingDirectory report.outDir
      have between_ready := ready.mono (subset_cons_self task rest)
        (settles.isTree ready.tree here) settles.workingDirectory fun _ => settles.hasDirectory here
      have later := rest_clear between_ready inside run
      rw [targets] at later
      intro other member
      rcases mem_cons.mp member with rfl | behind
      · exact here
      · exact (settles.clear_iff here
          (ready.apart task (.head _) other member)
          (ready.apart other member task (.head _))).mp (later other behind)
    · rw [first] at run
      cases run

/-- Options of a run that takes the output directory away first. The empty path names no
directory that could be taken away. -/
def Options.Empties (options : Options) : Prop := options.clean ∧ options.outDir.text ≠ ""

instance (options : Options) : Decidable options.Empties :=
  inferInstanceAs (Decidable (_ ∧ _))

/-- A store in which the output directory was taken away, if the options ask for it. -/
structure Cleaned (options : Options) (store ready : Store) : Prop where
  workingDirectory : ready.workingDirectory = store.workingDirectory
  entry? : ∀ place, ready.entry? place =
    if options.Empties ∧ store.aim options.outDir <+: place then none else store.entry? place

namespace Cleaned

variable {options : Options} {store ready : Store}

variable (cleaned : Cleaned options store ready)
include cleaned

theorem isTree (tree : store.IsTree) : ready.IsTree := by
  intro place there
  rw [cleaned.entry?] at there
  split at there
  · cases there
  rename_i outside
  have above : ¬(options.Empties ∧ store.aim options.outDir <+: place.dropLast) := fun inside =>
    outside ⟨inside.1, inside.2.trans (List.dropLast_prefix place)⟩
  have directory := tree place there
  rwa [Store.hasDirectory, cleaned.entry?, if_neg above]

theorem entry?_of_some
    {entry : Files.Entry} (there : ready.entry? place = some entry) :
    store.entry? place = some entry := by
  rw [cleaned.entry?] at there
  split at there
  · cases there
  · exact there

theorem clear (clear : store.Clear place) : ready.Clear place := by
  refine ⟨?_, ?_⟩
  · rintro ⟨front, contents, inside, file⟩
    exact clear.way ⟨front, contents, inside, cleaned.entry?_of_some file⟩
  · intro directory
    rw [Store.hasDirectory_iff] at directory
    exact clear.vacant (Store.hasDirectory_iff.mpr (cleaned.entry?_of_some directory))

end Cleaned

theorem prepare_cases {options : Options} (tree : store.IsTree)
    (anchored : options.Empties → ∃ fixed names, store.Anchored options.outDir fixed names)
    (plain : options.Empties → (Text.splitOn '/' options.outDir.text).getLast? ≠ some ".") :
    ((options.Empties → ¬store.Blocked (store.aim options.outDir)) ∧
        ∃ ready, (prepare options).evaluate store = (.ok (), ready) ∧ Cleaned options store ready) ∨
      ((options.Empties ∧ store.Blocked (store.aim options.outDir)) ∧
        ∃ error after, (prepare options).evaluate store = (.error error, after)) := by
  rw [prepare]
  by_cases empties : options.Empties
  · rw [if_pos empties.1, evaluate_cleanDirectory]
    obtain ⟨fixed, names, anchored⟩ := anchored empties
    rcases anchored.removeDirectories_cases tree (plain empties) with
      ⟨free, result, ready, run, ok, emptied⟩ | ⟨blocked, failure, other, run⟩
    · refine .inl ⟨fun _ => free, ready, ?_, emptied.workingDirectory, fun place => ?_⟩
      · rw [run]
        rcases ok with rfl | rfl <;> rfl
      · rw [emptied.entry?]
        simp only [empties, true_and]
    · rw [run]
      refine .inr ⟨⟨empties, blocked⟩, ?_⟩
      cases failure <;> first | exact absurd rfl other | exact ⟨_, _, rfl⟩
  · refine .inl ⟨fun asked => absurd asked empties, store, ?_, rfl, fun place => ?_⟩
    · by_cases clean : options.clean
      · have nowhere : options.outDir.text = "" := by
          by_contra written
          exact empties ⟨clean, written⟩
        have lost : store.removeDirectories options.outDir = (.error .notFound, store) := by
          rw [Store.removeDirectories, Store.place, nowhere]
          rfl
        rw [if_pos clean, evaluate_cleanDirectory, lost]
      · rw [if_neg clean]
        rfl
    · rw [if_neg fun asked => empties asked.1]

end Haxify.Emit
