import Haxify.Project.Exports
import Haxify.Proofs.Program
import Mathlib.Logic.Relation

/-!
# Exports lead where they say

What an exported name stands for is described by rules: which name leads to which other one,
and where such a chain ends. The rules follow the order in which a file answers for a name:
its default export, the names it lists, the names it passes on, and last the files it passes
on as a whole. The search keeps one list of questions for all its branches. Main statement:
it finds something exactly when some chain ends, and what it finds is the end of a chain, on
every project, cyclic ones included.
-/

namespace Haxify.Exports

open Relation List

/-- What a chain goes through. -/
inductive Place where
  | offered (index : Nat) (name : String)
  | bound (index : Nat) (name : String)

/-- Where a chain ends. -/
inductive Target where
  | member (index : Nat) (name : String)
  | whole (index : Nat)
  /-- At a member of a module from elsewhere; none is its default export. -/
  | foreign (specifier : String) (name : Option String)
  | ambient
deriving DecidableEq

/-- The end that a result names. -/
def targetOf : ResolvedExport → Target
  | .member index name _ => .member index name
  | .whole index => .whole index
  | .foreign specifier name => .foreign specifier name
  | .ambient => .ambient

def firstImport? (file : SourceFile) (localName : String) : Option (String × String) :=
  file.imports.findSome? fun binding =>
    (importedAs? binding localName).map fun name => (binding.specifier, name)

/-- A file that is lowered, by its index. -/
structure Lowered (program : Program) (index : Nat) (file : SourceFile) : Prop where
  here : program.files[index]? = some file
  lowered : file.isLowered

def NoDefault (file : SourceFile) (name : String) : Prop :=
  name = "default" → file.exports.default? = none

/-- Neither the default export of a file nor a listed name answers for a name. -/
structure Unlisted (file : SourceFile) (name : String) : Prop where
  noDefault : NoDefault file name
  none : file.exports.named.find? (·.exported == name) = none

/-- Which name leads to which other one. -/
inductive Leads (program : Program) : Place → Place → Prop where
  | default {index file localName} (made : Lowered program index file)
      (found : file.exports.default? = some (.named localName)) :
      Leads program (.offered index "default") (.bound index localName)
  | listed {index file name entry} (made : Lowered program index file)
      (noDefault : NoDefault file name)
      (found : file.exports.named.find? (·.exported == name) = some entry)
      (same : entry.isRenamed = false) :
      Leads program (.offered index name) (.bound index entry.localName)
  | passed {index file name passed target} (made : Lowered program index file)
      (unlisted : Unlisted file name)
      (found : file.exports.reExports.find? (·.exported == name) = some passed)
      (resolved : program.resolveFrom file.path passed.specifier = .project target)
      (part : passed.imported ≠ "*") :
      Leads program (.offered index name) (.offered target passed.imported)
  | star {index file name specifier target} (made : Lowered program index file)
      (unlisted : Unlisted file name)
      (none : file.exports.reExports.find? (·.exported == name) = none)
      (other : name ≠ "default") (listed : specifier ∈ file.exports.wildcards)
      (resolved : program.resolveFrom file.path specifier = .project target) :
      Leads program (.offered index name) (.offered target name)
  | imported {index file localName specifier name target}
      (here : program.files[index]? = some file)
      (undeclared : file.exports.kindOf? localName = none)
      (first : firstImport? file localName = some (specifier, name))
      (resolved : program.resolveFrom file.path specifier = .project target)
      (part : name ≠ "*") : Leads program (.bound index localName) (.offered target name)

inductive Ends (program : Program) : Place → Target → Prop where
  | ambient {index file name} (here : program.files[index]? = some file)
      (declares : file.isLowered = false) : Ends program (.offered index name) .ambient
  | expression {index file kind} (made : Lowered program index file)
      (found : file.exports.default? = some (.anonymous kind)) :
      Ends program (.offered index "default") (.member index Haxe.defaultMember)
  | renamed {index file name entry} (made : Lowered program index file)
      (noDefault : NoDefault file name)
      (found : file.exports.named.find? (·.exported == name) = some entry)
      (other : entry.isRenamed) :
      Ends program (.offered index name) (.member index (Haxe.sanitize name))
  | passedWhole {index file name passed target} (made : Lowered program index file)
      (unlisted : Unlisted file name)
      (found : file.exports.reExports.find? (·.exported == name) = some passed)
      (resolved : program.resolveFrom file.path passed.specifier = .project target)
      (all : passed.imported = "*") : Ends program (.offered index name) (.whole target)
  /-- A member of a module from elsewhere may be passed on. -/
  | passedForeign {index file name passed specifier} (made : Lowered program index file)
      (unlisted : Unlisted file name)
      (found : file.exports.reExports.find? (·.exported == name) = some passed)
      (resolved : program.resolveFrom file.path passed.specifier = .external specifier)
      (part : passed.imported ≠ "*") :
      Ends program (.offered index name) (.foreign specifier (foreignMember passed.imported))
  | declared {index file localName kind} (here : program.files[index]? = some file)
      (found : file.exports.kindOf? localName = some kind) :
      Ends program (.bound index localName) (.member index (Haxe.sanitize localName))
  | importedWhole {index file localName specifier name target}
      (here : program.files[index]? = some file)
      (undeclared : file.exports.kindOf? localName = none)
      (first : firstImport? file localName = some (specifier, name))
      (resolved : program.resolveFrom file.path specifier = .project target) (all : name = "*") :
      Ends program (.bound index localName) (.whole target)
  /-- A member of a module from elsewhere may be imported. -/
  | importedForeign {index file localName written specifier name}
      (here : program.files[index]? = some file)
      (undeclared : file.exports.kindOf? localName = none)
      (first : firstImport? file localName = some (written, name))
      (resolved : program.resolveFrom file.path written = .external specifier)
      (part : name ≠ "*") :
      Ends program (.bound index localName) (.foreign specifier (foreignMember name))

/-- A chain of names that ends. -/
def ReachesEnd (program : Program) (start : Place) (target : Target) : Prop :=
  ∃ last, ReflTransGen (Leads program) start last ∧ Ends program last target

variable {localName specifier : String} {kind : TypeScript.DeclarationKind} {place : Place}
  {target : Target} {asked : Query → Prop}

theorem lowered_of_bound {program : Program} {index other : Nat} {name : String}
    (chain : ReflTransGen (Leads program) (.offered index name) (.bound other localName)) :
    ∃ file, Lowered program other file := by
  rcases chain.cases_tail with same | ⟨before, _, leads⟩
  · cases same
  · cases leads with
    | default made _ | listed made _ _ _ => exact ⟨_, made⟩

section Rules

variable {program : Program} {index : Nat} {file : SourceFile} {name : String} {target : Nat}

theorem step_ambient (here : program.files[index]? = some file)
    (declares : file.isLowered = false) :
    step program (index, name) = .plain (.found .ambient) := by
  simp [step, here, declares]

variable (made : Lowered program index file)
include made

theorem step_default (found : file.exports.default? = some (.named localName)) :
    step program (index, "default") = .plain (localOrigin program index file localName) := by
  simp [step, made.here, made.lowered, found]

theorem step_expression (found : file.exports.default? = some (.anonymous kind)) :
    step program (index, "default") = .plain (.found (.member index Haxe.defaultMember kind)) := by
  simp [step, made.here, made.lowered, found]

theorem step_of_noDefault (noDefault : NoDefault file name) :
    step program (index, name) = namedStep program index file name := by
  have answer : (if name == "default" then file.exports.default? else none) = none := by
    by_cases isDefault : name = "default"
    · rw [noDefault isDefault]
      exact ite_self none
    · rw [beq_eq_false_iff_ne.mpr isDefault]
      rfl
  simp only [step, made.here, made.lowered, answer]
  rfl

theorem step_listed {entry : TypeScript.ExportEntry} (noDefault : NoDefault file name)
    (found : file.exports.named.find? (·.exported == name) = some entry) :
    step program (index, name) =
      if entry.isRenamed then
        .renamed (Haxe.sanitize name) (localOrigin program index file entry.localName)
      else .plain (localOrigin program index file entry.localName) := by
  rw [step_of_noDefault made noDefault, namedStep, found]

theorem step_unlisted (unlisted : Unlisted file name) :
    step program (index, name) = .plain (passedOn program file name) := by
  rw [step_of_noDefault made unlisted.noDefault, namedStep, unlisted.none]

omit made

theorem step_cases (program : Program) (index : Nat) (name : String) :
    program.files[index]? = none ∧ step program (index, name) = .plain (.follow []) ∨
      ∃ file, program.files[index]? = some file ∧
        (file.isLowered = false ∨ Lowered program index file ∧
          ((∃ localName, name = "default" ∧ file.exports.default? = some (.named localName)) ∨
            (∃ kind, name = "default" ∧ file.exports.default? = some (.anonymous kind)) ∨
            NoDefault file name ∧
              ((∃ entry, file.exports.named.find? (·.exported == name) = some entry) ∨
                Unlisted file name))) := by
  cases here : program.files[index]? with
  | none => exact .inl ⟨rfl, by simp [step, here]⟩
  | some file =>
    refine .inr ⟨file, rfl, ?_⟩
    by_cases lowered : file.isLowered
    · refine .inr ⟨⟨here, lowered⟩, ?_⟩
      by_cases answered : NoDefault file name
      · refine .inr (.inr ⟨answered, ?_⟩)
        cases found : file.exports.named.find? (·.exported == name) with
        | some entry => exact .inl ⟨entry, rfl⟩
        | none => exact .inr ⟨answered, found⟩
      · obtain ⟨isDefault, some⟩ := Classical.not_imp.mp answered
        cases found : file.exports.default? with
        | none => exact absurd found some
        | some offered =>
          cases offered with
          | named localName => exact .inl ⟨localName, isDefault, rfl⟩
          | anonymous kind => exact .inr (.inl ⟨kind, isDefault, rfl⟩)
    · exact .inl ((Bool.not_eq_true _).mp lowered)

theorem localOrigin_declared (found : file.exports.kindOf? name = some kind) :
    localOrigin program index file name = .found (.member index (Haxe.sanitize name) kind) := by
  rw [localOrigin, found]

theorem localOrigin_imported {imported : String}
    (undeclared : file.exports.kindOf? name = none)
    (first : firstImport? file name = some (specifier, imported)) :
    localOrigin program index file name = importOrigin program file specifier imported := by
  rw [firstImport?] at first
  simp only [localOrigin, undeclared, first]

theorem localOrigin_unbound (undeclared : file.exports.kindOf? name = none)
    (none : firstImport? file name = none) : localOrigin program index file name = .follow [] := by
  rw [firstImport?] at none
  simp only [localOrigin, undeclared, none]

variable (resolved : program.resolveFrom file.path specifier = .project target)
include resolved

theorem importOrigin_part (part : name ≠ "*") :
    importOrigin program file specifier name = .follow [(target, name)] := by
  simp [importOrigin, resolved, part]

theorem importOrigin_whole : importOrigin program file specifier "*" = .found (.whole target) := by
  simp [importOrigin, resolved]

omit resolved

theorem importOrigin_foreign {written : String}
    (resolved : program.resolveFrom file.path written = .external specifier) (part : name ≠ "*") :
    importOrigin program file written name = .found (.foreign specifier (foreignMember name)) := by
  simp [importOrigin, resolved, part]

theorem importOrigin_cases (program : Program) (file : SourceFile) (written name : String) :
    importOrigin program file written name = .follow [] ∨
      (∃ target, program.resolveFrom file.path written = .project target) ∨
      ∃ specifier, program.resolveFrom file.path written = .external specifier ∧ name ≠ "*" := by
  cases resolved : program.resolveFrom file.path written with
  | project target => exact .inr (.inl ⟨target, rfl⟩)
  | external specifier =>
    by_cases all : name = "*"
    · exact .inl (by simp [importOrigin, resolved, all])
    · exact .inr (.inr ⟨specifier, rfl, all⟩)
  | unresolved specifier => exact .inl (by simp [importOrigin, resolved])

theorem mem_wildcardTargets :
    target ∈ wildcardTargets program file ↔
      ∃ specifier ∈ file.exports.wildcards,
        program.resolveFrom file.path specifier = .project target := by
  rw [wildcardTargets, mem_filterMap]
  constructor
  · rintro ⟨specifier, listed, found⟩
    split at found
    · rename_i resolved
      cases found
      exact ⟨specifier, listed, resolved⟩
    · cases found
  · rintro ⟨specifier, listed, resolved⟩
    exact ⟨specifier, listed, by rw [resolved]⟩

theorem passedOn_passed {passed : TypeScript.ReExport}
    (found : file.exports.reExports.find? (·.exported == name) = some passed) :
    passedOn program file name = importOrigin program file passed.specifier passed.imported := by
  rw [passedOn, found]

theorem passedOn_star (none : file.exports.reExports.find? (·.exported == name) = none)
    (other : name ≠ "default") :
    passedOn program file name =
      .follow ((wildcardTargets program file).map fun target => (target, name)) := by
  rw [passedOn, none]
  exact if_neg (by simpa using other)

theorem passedOn_default (none : file.exports.reExports.find? (·.exported == "default") = none) :
    passedOn program file "default" = .follow [] := by
  rw [passedOn, none]
  rfl

end Rules

section Soundness

variable {program : Program} {index : Nat} {file : SourceFile} {name : String}

def Sound (program : Program) (place : Place) : Origin → Prop
  | .found result => ReachesEnd program place (targetOf result)
  | .follow queries => ∀ query ∈ queries,
      ReflTransGen (Leads program) place (.offered query.1 query.2)

theorem sound_importOrigin {written imported : String}
    (leads : ∀ target, program.resolveFrom file.path written = .project target → imported ≠ "*" →
      Leads program place (.offered target imported))
    (whole : ∀ target, program.resolveFrom file.path written = .project target → imported = "*" →
      Ends program place (.whole target))
    (foreign : ∀ specifier, program.resolveFrom file.path written = .external specifier →
      imported ≠ "*" → Ends program place (.foreign specifier (foreignMember imported))) :
    Sound program place (importOrigin program file written imported) := by
  rcases importOrigin_cases program file written imported with
    nowhere | ⟨target, resolved⟩ | ⟨specifier, resolved, part⟩
  · rw [nowhere]
    intro query member
    cases member
  · by_cases all : imported = "*"
    · rw [all, importOrigin_whole resolved]
      exact ⟨place, .refl, whole target resolved all⟩
    · rw [importOrigin_part resolved all]
      intro query member
      rw [mem_singleton.mp member]
      exact .single (leads target resolved all)
  · rw [importOrigin_foreign resolved part]
    exact ⟨place, .refl, foreign specifier resolved part⟩

theorem sound_localOrigin (here : program.files[index]? = some file) :
    Sound program (.bound index name) (localOrigin program index file name) := by
  cases declared : file.exports.kindOf? name with
  | some kind =>
    rw [localOrigin_declared declared]
    exact ⟨_, .refl, .declared here declared⟩
  | none =>
    cases first : firstImport? file name with
    | none =>
      rw [localOrigin_unbound declared first]
      intro query member
      cases member
    | some binding =>
      rw [localOrigin_imported declared first]
      exact sound_importOrigin (fun _ resolved part => .imported here declared first resolved part)
        (fun _ resolved all => .importedWhole here declared first resolved all)
        (fun _ resolved part => .importedForeign here declared first resolved part)

theorem Sound.of_leads {first second : Place} {origin : Origin} (leads : Leads program first second)
    (sound : Sound program second origin) : Sound program first origin := by
  cases origin with
  | found result =>
    obtain ⟨last, chain, ends⟩ := sound
    exact ⟨last, .head leads chain, ends⟩
  | follow queries => exact fun query member => .head leads (sound query member)

theorem sound_passedOn (made : Lowered program index file) (unlisted : Unlisted file name) :
    Sound program (.offered index name) (passedOn program file name) := by
  cases found : file.exports.reExports.find? (·.exported == name) with
  | some passed =>
    rw [passedOn_passed found]
    exact sound_importOrigin (fun _ resolved part => .passed made unlisted found resolved part)
      (fun _ resolved all => .passedWhole made unlisted found resolved all)
      (fun _ resolved part => .passedForeign made unlisted found resolved part)
  | none =>
    by_cases isDefault : name = "default"
    · rw [isDefault] at found ⊢
      rw [passedOn_default found]
      intro query member
      cases member
    · rw [passedOn_star found isDefault]
      intro query member
      obtain ⟨target, listed, rfl⟩ := mem_map.mp member
      obtain ⟨specifier, written, resolved⟩ := mem_wildcardTargets.mp listed
      exact .single (.star made unlisted found isDefault written resolved)

theorem sound_step (program : Program) (index : Nat) (name : String) :
    match step program (index, name) with
    | .plain origin => Sound program (.offered index name) origin
    | .renamed member origin => Ends program (.offered index name) (.member index member) ∧
        ∃ localName, Sound program (.bound index localName) origin := by
  rcases step_cases program index name with ⟨_, nowhere⟩ | ⟨file, here, declares | ⟨made, rule⟩⟩
  · rw [nowhere]
    intro query member
    cases member
  · rw [step_ambient here declares]
    exact ⟨_, .refl, .ambient here declares⟩
  · rcases rule with
      ⟨localName, rfl, found⟩ | ⟨kind, rfl, found⟩ | ⟨noDefault, ⟨entry, found⟩ | unlisted⟩
    · rw [step_default made found]
      exact .of_leads (.default made found) (sound_localOrigin here)
    · rw [step_expression made found]
      exact ⟨_, .refl, .expression made found⟩
    · rw [step_listed made noDefault found]
      by_cases renamed : entry.isRenamed
      · rw [if_pos renamed]
        exact ⟨.renamed made noDefault found renamed, _, sound_localOrigin here⟩
      · rw [if_neg renamed]
        exact .of_leads (.listed made noDefault found ((Bool.not_eq_true _).mp renamed))
          (sound_localOrigin here)
    · rw [step_unlisted made unlisted]
      exact sound_passedOn made unlisted

theorem search_sound {unasked pending : List Query} {result : ResolvedExport}
    (found : search program unasked pending = some result) :
    ∃ query ∈ pending, ReachesEnd program (.offered query.1 query.2) (targetOf result) := by
  fun_induction search program unasked pending with
  | case1 => cases found
  | case2 unasked query rest asked here same =>
    have sound := sound_step program query.1 query.2
    rw [same] at sound
    cases found
    exact ⟨query, .head _, sound⟩
  | case3 unasked query rest asked queries same rest_found =>
    have sound := sound_step program query.1 query.2
    rw [same] at sound
    obtain ⟨next, member, last, chain, ends⟩ := rest_found found
    rcases mem_append.mp member with ours | theirs
    · exact ⟨query, .head _, last, (sound next ours).trans chain, ends⟩
    · exact ⟨next, .tail _ theirs, last, chain, ends⟩
  | case4 unasked query rest asked member here same
  | case5 unasked query rest asked member queries same =>
    have sound := sound_step program query.1 query.2
    rw [same] at sound
    cases found
    exact ⟨query, .head _, _, .refl, sound.1⟩
  | case6 unasked query rest skipped rest_found =>
    obtain ⟨next, member, reaches⟩ := rest_found found
    exact ⟨next, .tail _ member, reaches⟩

end Soundness

section Completeness

variable {program : Program} {index : Nat} {file : SourceFile} {name : String}
variable {followed : List Query} {query : Query} {next : Query}

theorem Ends.localOrigin_eq (ends : Ends program (.bound index name) target)
    (here : program.files[index]? = some file) :
    ∃ result, localOrigin program index file name = .found result ∧ targetOf result = target := by
  cases ends with
  | declared there found =>
    cases here.symm.trans there
    exact ⟨_, localOrigin_declared found, rfl⟩
  | importedWhole there undeclared first resolved all =>
    cases here.symm.trans there
    rw [localOrigin_imported undeclared first, all, importOrigin_whole resolved]
    exact ⟨_, rfl, rfl⟩
  | importedForeign there undeclared first resolved part =>
    cases here.symm.trans there
    rw [localOrigin_imported undeclared first, importOrigin_foreign resolved part]
    exact ⟨_, rfl, rfl⟩

theorem Leads.localOrigin_eq {next : Place} (leads : Leads program (.bound index name) next)
    (here : program.files[index]? = some file) :
    ∃ query, localOrigin program index file name = .follow [query] ∧
      next = .offered query.1 query.2 := by
  cases leads with
  | imported there undeclared first resolved part =>
    cases here.symm.trans there
    rw [localOrigin_imported undeclared first, importOrigin_part resolved part]
    exact ⟨_, rfl, rfl⟩

/-- A chain ends at an offered name where its step finds something or gives it another name. -/
theorem Ends.step_eq (ends : Ends program (.offered index name) target) :
    (∃ result, step program (index, name) = .plain (.found result) ∧ targetOf result = target) ∨
      ∃ member origin, step program (index, name) = .renamed member origin ∧
        target = .member index member := by
  cases ends with
  | ambient here declares => exact .inl ⟨_, step_ambient here declares, rfl⟩
  | expression made found => exact .inl ⟨_, step_expression made found, rfl⟩
  | renamed made noDefault found other =>
    rw [step_listed made noDefault found, if_pos other]
    exact .inr ⟨_, _, rfl, rfl⟩
  | passedWhole made unlisted found resolved all =>
    rw [step_unlisted made unlisted, passedOn_passed found, all, importOrigin_whole resolved]
    exact .inl ⟨_, rfl, rfl⟩
  | passedForeign made unlisted found resolved part =>
    rw [step_unlisted made unlisted, passedOn_passed found, importOrigin_foreign resolved part]
    exact .inl ⟨_, rfl, rfl⟩

/-- An offered name leads to a query of its step, or to a bound name that the step is taken
from. -/
theorem Leads.step_eq {next : Place} (leads : Leads program (.offered index name) next) :
    (∃ queries, step program (index, name) = .plain (.follow queries) ∧
        ∃ query ∈ queries, next = .offered query.1 query.2) ∨
      ∃ file localName, next = .bound index localName ∧ program.files[index]? = some file ∧
        step program (index, name) = .plain (localOrigin program index file localName) := by
  cases leads with
  | default made found => exact .inr ⟨_, _, rfl, made.here, step_default made found⟩
  | listed made noDefault found plain =>
    have listed := step_listed made noDefault found
    rw [if_neg (by rw [plain]; decide)] at listed
    exact .inr ⟨_, _, rfl, made.here, listed⟩
  | passed made unlisted found resolved part =>
    rw [step_unlisted made unlisted, passedOn_passed found, importOrigin_part resolved part]
    exact .inl ⟨_, rfl, _, mem_singleton.mpr rfl, rfl⟩
  | star made unlisted none other listed resolved =>
    rw [step_unlisted made unlisted, passedOn_star none other]
    have target := mem_wildcardTargets.mpr ⟨_, listed, resolved⟩
    exact .inl ⟨_, rfl, _, mem_map_of_mem target, rfl⟩

theorem not_ends_of_follow {queries : List Query}
    (same : step program (index, name) = .plain (.follow queries)) (target : Target) :
    ¬Ends program (.offered index name) target := by
  intro ends
  rcases ends.step_eq with ⟨_, step_eq, _⟩ | ⟨_, _, step_eq, _⟩
  · cases same.symm.trans step_eq
  · cases same.symm.trans step_eq

/-- Queries that are all answered by others among them: none of them leads anywhere. -/
def Closed (program : Program) (asked : Query → Prop) : Prop :=
  ∀ query, asked query → ∃ queries, step program query = .plain (.follow queries) ∧
    ∀ next ∈ queries, asked next

/-- A place that closed queries account for: one of them, or a bound name that comes from
some. -/
def AccountedFor (program : Program) (asked : Query → Prop) : Place → Prop
  | .offered index name => asked (index, name)
  | .bound index name => ∃ file queries, program.files[index]? = some file ∧
      localOrigin program index file name = .follow queries ∧ ∀ next ∈ queries, asked next

theorem Closed.accountedFor (closed : Closed program asked)
    {first last : Place} (chain : ReflTransGen (Leads program) first last)
    (start : AccountedFor program asked first) : AccountedFor program asked last := by
  induction chain with
  | refl => exact start
  | @tail place next _ leads before =>
    cases place with
    | offered index name =>
      obtain ⟨queries, same, all⟩ := closed (index, name) before
      rcases leads.step_eq with
        ⟨followed, step_eq, other, member, rfl⟩ | ⟨file, localName, rfl, here, step_eq⟩
      · cases same.symm.trans step_eq
        exact all other member
      · exact ⟨file, queries, here, Step.plain.inj (step_eq.symm.trans same), all⟩
    | bound index name =>
      obtain ⟨file, queries, here, origin, all⟩ := before
      obtain ⟨other, origin_eq, rfl⟩ := leads.localOrigin_eq here
      cases origin.symm.trans origin_eq
      exact all other (mem_singleton.mpr rfl)

theorem Closed.not_reachesEnd (closed : Closed program asked)
    (start : asked query) (target : Target) :
    ¬ReachesEnd program (.offered query.1 query.2) target := by
  rintro ⟨last, chain, ends⟩
  have stays := closed.accountedFor chain
    (show AccountedFor program asked (.offered _ _) from start)
  cases last with
  | offered index name =>
    obtain ⟨queries, same, _⟩ := closed (index, name) stays
    exact not_ends_of_follow same target ends
  | bound index name =>
    obtain ⟨file, queries, here, origin, _⟩ := stays
    obtain ⟨_, origin_eq, _⟩ := ends.localOrigin_eq here
    cases origin.symm.trans origin_eq

/-- What a search keeps while it finds nothing, over all queries that it can come to: a query
that may no longer be asked was asked, and every query asked is answered by others that were
asked or are pending. -/
structure Frontier (program : Program) (askable : Query → Prop) (asked : Query → Prop)
    (unasked pending : List Query) : Prop where
  known : ∀ query ∈ pending, askable query
  covered : ∀ query, askable query → query ∈ unasked ∨ asked query
  answered : ∀ query, asked query → ∃ queries, step program query = .plain (.follow queries) ∧
    ∀ next ∈ queries, asked next ∨ next ∈ pending

namespace Frontier

variable {askable asked : Query → Prop} {unasked rest : List Query} {query : Query}
variable (frontier : Frontier program askable asked unasked (query :: rest))
include frontier

theorem ask {queries : List Query} (same : step program query = .plain (.follow queries))
    (known : ∀ next ∈ queries, askable next) :
    Frontier program askable (fun other => asked other ∨ other = query)
      (unasked.erase query) (queries ++ rest) := by
  refine ⟨fun other member => ?_, fun other inside => ?_, fun other member => ?_⟩
  · rcases mem_append.mp member with ours | theirs
    · exact known other ours
    · exact frontier.known other (.tail _ theirs)
  · by_cases equal : other = query
    · exact .inr (.inr equal)
    · rcases frontier.covered other inside with free | before
      · exact .inl ((mem_erase_of_ne equal).mpr free)
      · exact .inr (.inl before)
  · rcases member with before | rfl
    · obtain ⟨followed, step_eq, next⟩ := frontier.answered other before
      refine ⟨followed, step_eq, fun further listed => ?_⟩
      rcases next further listed with done | waiting
      · exact .inl (.inl done)
      · rcases mem_cons.mp waiting with equal | later
        · exact .inl (.inr equal)
        · exact .inr (mem_append_right _ later)
    · exact ⟨queries, same, fun further listed => .inr (mem_append_left _ listed)⟩

theorem asked_of_not_mem (skipped : query ∉ unasked) : asked query :=
  (frontier.covered query (frontier.known query (.head _))).resolve_left skipped

theorem skip (done : asked query) : Frontier program askable asked unasked rest := by
  refine ⟨fun other member => frontier.known other (.tail _ member), frontier.covered,
    fun other member => ?_⟩
  obtain ⟨followed, step_eq, next⟩ := frontier.answered other member
  refine ⟨followed, step_eq, fun further listed => ?_⟩
  rcases next further listed with before | waiting
  · exact .inl before
  · rcases mem_cons.mp waiting with rfl | later
    · exact .inl done
    · exact .inr later

end Frontier

theorem closed_of_search_eq_none {askable : Query → Prop}
    (complete : ∀ query queries, askable query → step program query = .plain (.follow queries) →
      ∀ next ∈ queries, askable next)
    {unasked pending : List Query} (frontier : Frontier program askable asked unasked pending)
    (nothing : search program unasked pending = none) :
    ∃ all, Closed program all ∧ (∀ query, asked query → all query) ∧
      ∀ query ∈ pending, all query := by
  fun_induction search program unasked pending generalizing asked with
  | case1 unasked =>
    refine ⟨asked, fun query member => ?_, fun _ member => member, fun _ member => nomatch member⟩
    obtain ⟨queries, same, next⟩ := frontier.answered query member
    exact ⟨queries, same, fun other listed => (next other listed).resolve_right (by simp)⟩
  | case2 | case4 | case5 => cases nothing
  | case3 unasked query rest allowed queries same rest_closed =>
    have known := complete query queries (frontier.known query (.head _)) same
    obtain ⟨all, closed, before, waiting⟩ := rest_closed (frontier.ask same known) nothing
    refine ⟨all, closed, fun other member => before other (.inl member), fun other member => ?_⟩
    rcases mem_cons.mp member with rfl | later
    · exact before other (.inr rfl)
    · exact waiting other (mem_append_right _ later)
  | case6 unasked query rest skipped rest_closed =>
    -- Another branch has asked the query; what it leads to is asked or pending all the same.
    have done : asked query :=
      frontier.asked_of_not_mem fun member => skipped (contains_iff_mem.mpr member)
    obtain ⟨all, closed, before, waiting⟩ := rest_closed (frontier.skip done) nothing
    refine ⟨all, closed, before, fun other member => ?_⟩
    rcases mem_cons.mp member with rfl | later
    · exact before other done
    · exact waiting other later

theorem mem_queries :
    query ∈ queries program name ↔ query.1 < program.files.length ∧
      query.2 ∈ name :: "default" :: program.files.flatMap askedNames := by
  rw [queries]
  simp only [mem_flatMap, mem_range, mem_map, mem_eraseDups]
  constructor
  · rintro ⟨index, inside, text, asked, rfl⟩
    exact ⟨inside, asked⟩
  · rintro ⟨inside, asked⟩
    exact ⟨query.1, inside, query.2, asked, rfl⟩

theorem mem_askedNames_of_firstImport {imported : String}
    (first : firstImport? file localName = some (specifier, imported)) :
    imported = "default" ∨ imported = "*" ∨ imported ∈ askedNames file := by
  obtain ⟨binding, listed, taken⟩ := exists_of_findSome?_eq_some first
  obtain ⟨name, known, same⟩ := Option.map_eq_some_iff.mp taken
  cases same
  rw [importedAs?] at known
  split at known
  · cases known
    exact .inl rfl
  · split at known
    · cases known
      exact .inr (.inl rfl)
    · obtain ⟨entry, found, rfl⟩ := Option.map_eq_some_iff.mp known
      refine .inr (.inr (mem_append_left _ (mem_flatMap.mpr ⟨binding, listed, ?_⟩)))
      exact mem_map_of_mem (mem_of_find?_eq_some found)

/-- A place in a file of the project, where an offered name may be asked for. -/
def Askable (program : Program) (name : String) : Place → Prop
  | .offered index offered => (index, offered) ∈ queries program name
  | .bound index _ => index < program.files.length

theorem askable_of_leads {next : Place} (leads : Leads program place next)
    (askable : Askable program name place) : Askable program name next := by
  have listed {index target : Nat} {file : SourceFile} {specifier asked : String}
      (here : program.files[index]? = some file)
      (resolved : program.resolveFrom file.path specifier = .project target)
      (known : asked = "default" ∨ asked ∈ askedNames file) :
      (target, asked) ∈ queries program name := by
    refine mem_queries.mpr ⟨Program.lt_of_resolveFrom resolved, ?_⟩
    rcases known with rfl | known
    · exact .tail _ (.head _)
    · exact .tail _ (.tail _ (mem_flatMap.mpr ⟨file, mem_of_getElem? here, known⟩))
  cases leads with
  | default | listed => exact (mem_queries.mp askable).1
  | passed made _ found resolved _ =>
    exact listed made.here resolved
      (.inr (mem_append_right _ (mem_map_of_mem (mem_of_find?_eq_some found))))
  | star _ _ _ _ _ resolved =>
    exact mem_queries.mpr ⟨Program.lt_of_resolveFrom resolved, (mem_queries.mp askable).2⟩
  | imported here _ first resolved part =>
    rcases mem_askedNames_of_firstImport first with isDefault | all | asked
    · exact listed here resolved (.inl isDefault)
    · exact absurd all part
    · exact listed here resolved (.inr asked)

theorem askable_of_sound (sound : Sound program place (.follow followed))
    (askable : Askable program name place) : ∀ next ∈ followed, next ∈ queries program name := by
  intro next member
  have along {last : Place} (chain : ReflTransGen (Leads program) place last) :
      Askable program name last := by
    induction chain with
    | refl => exact askable
    | tail _ leads before => exact askable_of_leads leads before
  exact along (sound next member)

theorem mem_queries_of_step (askable : query ∈ queries program name)
    (same : step program query = .plain (.follow followed)) :
    ∀ next ∈ followed, next ∈ queries program name := by
  have sound := sound_step program query.1 query.2
  rw [same] at sound
  exact askable_of_sound sound askable

theorem not_reachesEnd_of_resolve_eq_none (nothing : resolve program index name = none)
    (target : Target) : ¬ReachesEnd program (.offered index name) target := by
  by_cases inside : index < program.files.length
  · have start : Frontier program (· ∈ queries program name) (fun _ => False)
        (queries program name) [(index, name)] := by
      refine ⟨fun query member => ?_, fun query known => .inl known, fun query asked => asked.elim⟩
      rw [mem_singleton.mp member]
      exact mem_queries.mpr ⟨inside, .head _⟩
    obtain ⟨all, closed, _, waiting⟩ := closed_of_search_eq_none
      (fun query followed known same => mem_queries_of_step known same) start nothing
    exact closed.not_reachesEnd (waiting (index, name) (.head _)) target
  · -- There is no such file, so no rule applies.
    have closed : Closed program (· = (index, name)) := by
      rintro query rfl
      refine ⟨[], ?_, fun next member => nomatch member⟩
      rcases step_cases program index name with ⟨_, nowhere⟩ | ⟨file, here, _⟩
      · exact nowhere
      · exact absurd (List.getElem?_eq_some_iff.mp here).1 inside
    exact closed.not_reachesEnd (show (index, name) = (index, name) from rfl) target

end Completeness

/-- An exported name is resolved exactly when some chain from it ends, and what it is
resolved to is the end of such a chain. -/
theorem resolve_finds_chain_ends (program : Program) (index : Nat) (name : String) :
    ((resolve program index name).isSome ↔
        ∃ target, ReachesEnd program (.offered index name) target) ∧
      ∀ result, resolve program index name = some result →
        ReachesEnd program (.offered index name) (targetOf result) := by
  have sound : ∀ result, resolve program index name = some result →
      ReachesEnd program (.offered index name) (targetOf result) := by
    intro result found
    obtain ⟨query, member, reaches⟩ := search_sound found
    rw [mem_singleton.mp member] at reaches
    exact reaches
  refine ⟨⟨fun some => ?_, fun ⟨target, reaches⟩ => ?_⟩, sound⟩
  · obtain ⟨result, found⟩ := Option.isSome_iff_exists.mp some
    exact ⟨targetOf result, sound result found⟩
  · cases outcome : resolve program index name with
    | some result => rfl
    | none => exact absurd reaches (not_reachesEnd_of_resolve_eq_none outcome target)

end Haxify.Exports
