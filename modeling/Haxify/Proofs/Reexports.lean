import Haxify.Proofs.Exports
import Mathlib.Data.List.Nodup

/-!
# Names passed on

A file may offer a name that it does not declare: one that it passes on from another file, or
one that it imports and lists again. Two statements about such names hold on every project,
cyclic ones included. Wherever a name leads in the end, it leads to a member that its file
offers to others, never to a private one. And a file that passes a name on is transparent: its
name stands for exactly what the name in the other file stands for.

The second statement compares two searches. The one for the first name starts with one more
question asked, so on a cycle the two skip different questions. They agree all the same, because
the additional question leads to nothing but the one that both begin with.
-/

namespace Haxify.Exports

open List
open TypeScript (ExportSurface DeclarationKind ExportEntry)

variable {query : Query} {askable : Query → Prop}
variable {unasked rest followed : List Query}

section Search

variable {program : Program}

theorem search_skip (done : query ∉ unasked) :
    search program unasked (query :: rest) = search program unasked rest := by
  rw [search, if_neg (by simpa using done)]

theorem search_follow (allowed : query ∈ unasked)
    (same : step program query = .plain (.follow followed)) :
    search program unasked (query :: rest) =
      search program (unasked.erase query) (followed ++ rest) := by
  rw [search, if_pos (by simpa using allowed), same]

theorem search_found {result : ResolvedExport} (allowed : query ∈ unasked)
    (same : step program query = .plain (.found result)) :
    search program unasked (query :: rest) = some result := by
  rw [search, if_pos (by simpa using allowed), same]

end Search

namespace Sample

def file (path : String) (exports : ExportSurface) : SourceFile where
  path := ⟨path⟩
  relative := ⟨path⟩
  kind := .script
  source := ""
  tree := .node ⟨"program", true, false, "", 0, 0, ⟨1, 1⟩, ""⟩ () []
  address := ⟨"", path⟩
  imports := []
  exports := exports

def cyclic : Program where
  configPath := none
  root := ⟨"/"⟩
  basePackage := ""
  files :=
    [file "/a.ts" { ExportSurface.empty with reExports := [⟨"./b", "x", "x", false⟩] },
      file "/b.ts" { ExportSurface.empty with wildcards := ["./a", "./c"] },
      file "/c.ts" { ExportSurface.empty with
        named := [⟨"x", "x", false⟩]
        declarations := [("x", .variable)] }]

theorem resolve_cyclic : resolve cyclic 0 "x" = some (.member 2 "x" .variable) := by
  have first : step cyclic (0, "x") = .plain (.follow [(1, "x")]) := by decide
  have second : step cyclic (1, "x") = .plain (.follow [(0, "x"), (2, "x")]) := by decide
  have third : step cyclic (2, "x") = .plain (.found (.member 2 "x" .variable)) := by decide
  rw [resolve, search_follow (by decide) first, singleton_append,
    search_follow (by decide) second, cons_append, search_skip (by decide),
    singleton_append, search_found (by decide) third]

end Sample

open Sample

section Visibility

variable {program : Program}

/-- What makes a member of a file's module one that other modules may name. -/
inductive IsOffered (file : SourceFile) (member : String) : Prop where
  | declared {name : String} {kind : DeclarationKind}
      (found : file.exports.kindOf? name = some kind) (spelled : Haxe.sanitize name = member)
      (visible : file.exports.isPublic name)
  /-- It is the item for a name that is listed under another one. -/
  | renamed {entry : ExportEntry} (listed : entry ∈ file.exports.named)
      (other : entry.isRenamed) (spelled : Haxe.sanitize entry.exported = member)
  | expression {kind : DeclarationKind}
      (found : file.exports.default? = some (.anonymous kind))
      (spelled : Haxe.defaultMember = member)

theorem isPublic_of_bound {index other : Nat} {name localName : String}
    (chain : Relation.ReflTransGen (Leads program) (.offered index name) (.bound other localName)) :
    ∃ file, Lowered program other file ∧ file.exports.isPublic localName := by
  rcases chain.cases_tail with same | ⟨before, _, leads⟩
  · cases same
  · cases leads with
    | default made found => exact ⟨_, made, by simp [ExportSurface.isPublic, found]⟩
    | @listed _ _ _ entry made noDefault found same =>
      refine ⟨_, made, ?_⟩
      have listed := mem_of_find?_eq_some found
      have exported : entry.exported = entry.localName := by
        simpa [ExportEntry.isRenamed] using same
      rw [ExportSurface.isPublic, Bool.or_eq_true, any_eq_true]
      exact .inl ⟨entry, listed, by simp [exported]⟩

/-- A name that leads to a member of a file leads to one that the file offers to others. -/
theorem resolved_member_is_offered {index target : Nat} {name member : String}
    {kind : DeclarationKind}
    (found : resolve program index name = some (.member target member kind)) :
    ∃ file, Lowered program target file ∧ IsOffered file member := by
  obtain ⟨query, listed, last, chain, ends⟩ := search_sound found
  rw [mem_singleton.mp listed] at chain
  cases ends with
  | expression made default => exact ⟨_, made, .expression default rfl⟩
  | @renamed _ _ name entry made noDefault first other =>
    have exported : entry.exported = name := by simpa using find?_some first
    exact ⟨_, made, .renamed (mem_of_find?_eq_some first) other (by rw [exported])⟩
  | declared here declared =>
    obtain ⟨file, made, visible⟩ := isPublic_of_bound chain
    cases here.symm.trans made.here
    exact ⟨_, made, .declared declared rfl visible⟩

/-- The name that two files pass on to each other is offered by the file that declares it. -/
theorem cyclic_name_is_offered :
    resolve cyclic 0 "x" = some (.member 2 "x" .variable) ∧
      ∃ file, Lowered cyclic 2 file ∧ IsOffered file "x" :=
  ⟨resolve_cyclic, resolved_member_is_offered resolve_cyclic⟩

end Visibility

section Distinct

theorem nodup_eraseDups (names : List String) : names.eraseDups.Nodup := by
  cases names with
  | nil => exact nodup_nil
  | cons name rest =>
    rw [eraseDups_cons, nodup_cons]
    refine ⟨fun member => ?_, nodup_eraseDups _⟩
    simpa using mem_eraseDups.mp member
termination_by names.length
decreasing_by
  have smaller := length_filter_le (fun other => !other == name) rest
  rw [length_cons]
  omega

theorem nodup_queries (program : Program) (name : String) : (queries program name).Nodup := by
  rw [queries, nodup_flatMap]
  refine ⟨fun index _ => ?_, ?_⟩
  · exact (nodup_eraseDups _).map fun _ _ same => (Prod.mk.inj same).2
  · refine nodup_range.imp fun differ => ?_
    intro query here there
    obtain ⟨_, _, rfl⟩ := mem_map.mp here
    obtain ⟨_, _, same⟩ := mem_map.mp there
    exact differ (Prod.mk.inj same).1.symm

end Distinct

section Simulation

variable {program : Program} {name : String}

/-- A step goes on with some queries, under the same name or under another. -/
def Follows (step : Step) (followed : List Query) : Prop :=
  step = .plain (.follow followed) ∨ ∃ member, step = .renamed member (.follow followed)

theorem mem_queries_of_renamed {member : String}
    (inside : query.1 < program.files.length)
    (same : step program query = .renamed member (.follow followed)) :
    ∀ next ∈ followed, next ∈ queries program name := by
  have sound := sound_step program query.1 query.2
  rw [same] at sound
  obtain ⟨_, localName, sound⟩ := sound
  exact askable_of_sound sound inside

theorem mem_queries_of_follows (askable : query ∈ queries program name)
    (follows : Follows (step program query) followed) :
    ∀ next ∈ followed, next ∈ queries program name := by
  rcases follows with plain | ⟨member, renamed⟩
  · exact mem_queries_of_step askable plain
  · exact mem_queries_of_renamed (mem_queries.mp askable).1 renamed

/-- A search that has asked `hub` already, beside one that has asked `start`, the only query
that `hub` leads to: among the queries that can be asked, the two may still ask the same ones
but for `hub`. -/
structure Beside (askable : Query → Prop) (hub start : Query) (ahead behind : List Query) :
    Prop where
  ahead_nodup : ahead.Nodup
  behind_nodup : behind.Nodup
  /-- The second search has asked where the hub leads. -/
  started : start ∉ behind
  /-- The two may ask the same queries but for the hub. -/
  same : ∀ query, askable query → (query ∈ ahead ↔ query ∈ behind ∧ query ≠ hub)

namespace Beside

variable {askable : Query → Prop} {hub start : Query} {ahead behind : List Query}

theorem ask (beside : Beside askable hub start ahead behind) (query : Query) :
    Beside askable hub start (ahead.erase query) (behind.erase query) := by
  refine ⟨beside.ahead_nodup.erase _, beside.behind_nodup.erase _,
    fun member => beside.started (mem_of_mem_erase member), fun other known => ?_⟩
  rw [beside.ahead_nodup.mem_erase_iff, beside.behind_nodup.mem_erase_iff, beside.same other known,
    and_assoc]

theorem catchUp (beside : Beside askable hub start ahead behind) :
    Beside askable hub start ahead (behind.erase hub) := by
  refine ⟨beside.ahead_nodup, beside.behind_nodup.erase _,
    fun member => beside.started (mem_of_mem_erase member), fun other known => ?_⟩
  rw [beside.behind_nodup.mem_erase_iff, beside.same other known]
  constructor
  · rintro ⟨listed, differs⟩
    exact ⟨⟨differs, listed⟩, differs⟩
  · rintro ⟨⟨_, listed⟩, differs⟩
    exact ⟨listed, differs⟩

end Beside

/-- A search for one name that has asked `hub` and `start` is beside one for the name of
`start` that has asked `start` alone. -/
theorem beside_start {hub start : Query} (known : start ∈ queries program name) :
    Beside (· ∈ queries program start.2) hub start
      (((queries program name).erase hub).erase start) ((queries program start.2).erase start) := by
  have distinct := nodup_queries program name
  have others := nodup_queries program start.2
  -- The name of `start` is asked for, so the second search has no further names to ask.
  have fewer : ∀ query ∈ queries program start.2, query ∈ queries program name := by
    intro query member
    obtain ⟨inside, asked⟩ := mem_queries.mp member
    refine mem_queries.mpr ⟨inside, ?_⟩
    rcases mem_cons.mp asked with same | other
    · rw [same]
      exact (mem_queries.mp known).2
    · exact .tail _ other
  refine ⟨(distinct.erase _).erase _, others.erase _, others.not_mem_erase,
    fun query member => ?_⟩
  rw [(distinct.erase _).mem_erase_iff, distinct.mem_erase_iff, others.mem_erase_iff]
  constructor
  · rintro ⟨notStart, notHub, _⟩
    exact ⟨⟨notStart, member⟩, notHub⟩
  · rintro ⟨⟨notStart, _⟩, notHub⟩
    exact ⟨notStart, notHub, fewer query member⟩

theorem search_singleton_congr {left right : List Query} {start : Query} (first : start ∈ left)
    (second : start ∈ right)
    (behind : ∀ followed, Follows (step program start) followed →
      search program (left.erase start) followed = search program (right.erase start) followed) :
    search program left [start] = search program right [start] := by
  rw [search, if_pos (by simpa using first), search, if_pos (by simpa using second)]
  cases outcome : step program start with
  | plain origin =>
    cases origin with
    | found result => rfl
    | follow followed =>
      have same := behind followed (.inl outcome)
      simpa only [append_nil] using same
  | renamed member origin =>
    cases origin with
    | found result => rfl
    | follow followed =>
      have same := behind followed (.inr ⟨member, outcome⟩)
      simp only [same]

/-- Two searches find the same if the queries that they may still ask stay related: what the first
one asks, the second one may ask too, and where the first one skips a query, the second one gets to
the rest without it. -/
theorem search_eq_of_related (Related : List Query → List Query → Prop)
    (complete : ∀ query followed, askable query → Follows (step program query) followed →
      ∀ next ∈ followed, askable next)
    (ask : ∀ {left right query}, Related left right → askable query → query ∈ left →
      query ∈ right ∧ Related (left.erase query) (right.erase query))
    (skip : ∀ {left right query} rest, Related left right → askable query → query ∉ left →
      ∃ caught, Related left caught ∧
        search program right (query :: rest) = search program caught rest)
    {left right pending : List Query} (related : Related left right)
    (known : ∀ query ∈ pending, askable query) :
    search program left pending = search program right pending := by
  fun_induction search program left pending generalizing right with
  | case1 left => rw [search]
  | case2 left query rest allowed result found =>
    have listed := (ask related (known query (.head _)) (by simpa using allowed)).1
    rw [search_found listed found]
  | case3 left query rest allowed followed follows rest_eq =>
    have askable := known query (.head _)
    obtain ⟨listed, behind⟩ := ask related askable (by simpa using allowed)
    rw [search_follow listed follows]
    refine rest_eq behind fun next member => ?_
    rcases mem_append.mp member with ours | theirs
    · exact complete query followed askable (.inl follows) next ours
    · exact known next (.tail _ theirs)
  | case4 left query rest allowed member result found =>
    have listed := (ask related (known query (.head _)) (by simpa using allowed)).1
    rw [search, if_pos (by simpa using listed), found]
  | case5 left query rest allowed member followed follows inner_eq =>
    have askable := known query (.head _)
    obtain ⟨listed, behind⟩ := ask related askable (by simpa using allowed)
    have inner := inner_eq behind (complete query followed askable (.inr ⟨member, follows⟩))
    rw [search, if_pos (by simpa using listed), follows, inner]
  | case6 left query rest skipped rest_eq =>
    obtain ⟨caught, behind, same⟩ :=
      skip rest related (known query (.head _)) (by simpa using skipped)
    rw [same]
    exact rest_eq behind fun next member => known next (.tail _ member)

theorem search_eq_of_beside {hub start : Query}
    (leads : step program hub = .plain (.follow [start]))
    (complete : ∀ query followed, askable query → Follows (step program query) followed →
      ∀ next ∈ followed, askable next)
    {ahead behind pending : List Query} (beside : Beside askable hub start ahead behind)
    (known : ∀ query ∈ pending, askable query) :
    search program ahead pending = search program behind pending := by
  refine search_eq_of_related (Beside askable hub start) complete (fun beside known listed =>
    ⟨((beside.same _ known).mp listed).1, beside.ask _⟩) (fun {_ behind query} rest beside known
    skipped => ?_) beside known
  by_cases allowed : query ∈ behind
  · have isHub : query = hub := by
      by_contra differs
      exact skipped ((beside.same query known).mpr ⟨allowed, differs⟩)
    subst isHub
    -- The second search asks the hub and comes to `start`, which it has asked before.
    refine ⟨_, beside.catchUp, ?_⟩
    rw [search_follow allowed leads, singleton_append,
      search_skip fun member => beside.started (mem_of_mem_erase member)]
  · exact ⟨behind, beside, search_skip allowed⟩

end Simulation

/-- A file offers under a name what another file offers under some name. -/
inductive PassesOn (program : Program) (index : Nat) (name : String) (target : Nat)
    (imported : String) : Prop where
  | reExport {file : SourceFile} {passed : TypeScript.ReExport} (made : Lowered program index file)
      (unlisted : Unlisted file name)
      (found : file.exports.reExports.find? (·.exported == name) = some passed)
      (resolved : program.resolveFrom file.path passed.specifier = .project target)
      (same : passed.imported = imported) (part : imported ≠ "*")
  | listed {file : SourceFile} {entry : ExportEntry} {specifier : String}
      (made : Lowered program index file) (noDefault : NoDefault file name)
      (found : file.exports.named.find? (·.exported == name) = some entry)
      (plain : entry.isRenamed = false) (undeclared : file.exports.kindOf? entry.localName = none)
      (first : firstImport? file entry.localName = some (specifier, imported))
      (resolved : program.resolveFrom file.path specifier = .project target)
      (part : imported ≠ "*")
  | default {file : SourceFile} {localName specifier : String} (made : Lowered program index file)
      (isDefault : name = "default")
      (found : file.exports.default? = some (.named localName))
      (undeclared : file.exports.kindOf? localName = none)
      (first : firstImport? file localName = some (specifier, imported))
      (resolved : program.resolveFrom file.path specifier = .project target)
      (part : imported ≠ "*")

namespace PassesOn

variable {program : Program} {index target : Nat} {name imported : String}

variable (passes : PassesOn program index name target imported)
include passes

theorem step_eq : step program (index, name) = .plain (.follow [(target, imported)]) := by
  cases passes with
  | reExport made unlisted found resolved same part =>
    subst same
    rw [step_unlisted made unlisted, passedOn_passed found, importOrigin_part resolved part]
  | listed made noDefault found plain undeclared first resolved part =>
    rw [step_listed made noDefault found, if_neg (by rw [plain]; decide),
      localOrigin_imported undeclared first, importOrigin_part resolved part]
  | default made isDefault found undeclared first resolved part =>
    subst isDefault
    rw [step_default made found, localOrigin_imported undeclared first,
      importOrigin_part resolved part]

theorem lt_length : index < program.files.length := by
  obtain ⟨file, made⟩ : ∃ file, Lowered program index file := by
    cases passes with
    | reExport made | listed made | default made => exact ⟨_, made⟩
  exact (List.getElem?_eq_some_iff.mp made.here).1

end PassesOn

/-- A name that a file passes on stands for exactly what the other name stands for, on every
project, cyclic ones included. -/
theorem resolve_passed_on {program : Program} {index target : Nat} {name imported : String}
    (passes : PassesOn program index name target imported) :
    resolve program index name = resolve program target imported := by
  have leads := passes.step_eq
  by_cases equal : ((index, name) : Query) = (target, imported)
  · obtain ⟨rfl, rfl⟩ := Prod.mk.inj equal
    rfl
  · have hub : (index, name) ∈ queries program name :=
      mem_queries.mpr ⟨passes.lt_length, .head _⟩
    have start : (target, imported) ∈ queries program name :=
      mem_queries_of_step hub leads _ (.head _)
    have asked : (target, imported) ∈ queries program imported :=
      mem_queries.mpr ⟨(mem_queries.mp start).1, .head _⟩
    have unasked : (target, imported) ∈ (queries program name).erase (index, name) :=
      (nodup_queries program name).mem_erase_iff.mpr ⟨Ne.symm equal, start⟩
    calc
      resolve program index name
          = search program ((queries program name).erase (index, name)) [(target, imported)] := by
        rw [resolve, search_follow hub leads, append_nil]
      _ = search program (queries program imported) [(target, imported)] := by
        refine search_singleton_congr unasked asked fun followed follows => ?_
        exact search_eq_of_beside leads (fun _ _ => mem_queries_of_follows) (beside_start start)
          (mem_queries_of_follows asked follows)
      _ = resolve program target imported := rfl

/-- A file on a cycle passes a name on, and the name stands for the same in both files. -/
theorem cyclic_name_is_transparent :
    PassesOn cyclic 0 "x" 1 "x" ∧ resolve cyclic 0 "x" = resolve cyclic 1 "x" := by
  have passes : PassesOn cyclic 0 "x" 1 "x" :=
    .reExport ⟨rfl, by decide⟩ ⟨fun _ => rfl, by decide⟩ rfl (by decide) rfl (by decide)
  exact ⟨passes, resolve_passed_on passes⟩

end Haxify.Exports
