import Haxify.Proofs.Reexports

/-!
# Files passed on as a whole

A file may pass on all names of other files, and these may do the same. Main statement: a name
that one of the files reached in this way declares and offers leads to a member of a file that a
module is made of, in whatever order the files are passed on, as long as no declaration file is
reached. A declaration file answers for every name, also for those it does not declare, so where
one is reached the order does matter.
-/

namespace Haxify.Exports

open Relation List

variable {member : String}
variable {program : Program} {index start target : Nat} {file : SourceFile} {name : String}
variable {reached : Target}

section Inversion

variable {result : ResolvedExport} {reached : Target}

theorem bound_found {localName : String} (here : program.files[index]? = some file)
    (origin : localOrigin program index file localName = .found result)
    (reaches : ReachesEnd program (.bound index localName) reached) :
    reached = targetOf result := by
  obtain ⟨last, chain, ends⟩ := reaches
  rcases chain.cases_head with rfl | ⟨next, leads, _⟩
  · obtain ⟨_, origin_eq, target_eq⟩ := ends.localOrigin_eq here
    cases origin.symm.trans origin_eq
    exact target_eq.symm
  · obtain ⟨_, origin_eq, _⟩ := leads.localOrigin_eq here
    cases origin.symm.trans origin_eq

theorem offered_found (same : step program (index, name) = .plain (.found result))
    (reaches : ReachesEnd program (.offered index name) reached) : reached = targetOf result := by
  obtain ⟨last, chain, ends⟩ := reaches
  rcases chain.cases_head with rfl | ⟨next, leads, behind⟩
  · rcases ends.step_eq with ⟨_, step_eq, target_eq⟩ | ⟨_, _, step_eq, _⟩
    · cases same.symm.trans step_eq
      exact target_eq.symm
    · cases same.symm.trans step_eq
  · rcases leads.step_eq with ⟨_, step_eq, _⟩ | ⟨file, localName, rfl, here, step_eq⟩
    · cases same.symm.trans step_eq
    · have origin := Step.plain.inj (step_eq.symm.trans same)
      exact bound_found here origin ⟨last, behind, ends⟩

theorem offered_renamed {origin : Origin}
    (same : step program (index, name) = .renamed member origin)
    (reaches : ReachesEnd program (.offered index name) reached) :
    reached = .member index member := by
  obtain ⟨last, chain, ends⟩ := reaches
  rcases chain.cases_head with rfl | ⟨next, leads, _⟩
  · rcases ends.step_eq with ⟨_, step_eq, _⟩ | ⟨_, _, step_eq, target_eq⟩
    · cases same.symm.trans step_eq
    · cases same.symm.trans step_eq
      exact target_eq
  · rcases leads.step_eq with ⟨_, step_eq, _⟩ | ⟨_, _, _, _, step_eq⟩
    · cases same.symm.trans step_eq
    · cases same.symm.trans step_eq

end Inversion

/-- A file passes on all names of another one. -/
def StarLinks (program : Program) (index target : Nat) : Prop :=
  ∃ file, Lowered program index file ∧ target ∈ wildcardTargets program file

structure Bare (file : SourceFile) (name : String) : Prop where
  unlisted : Unlisted file name
  notPassed : file.exports.reExports.find? (·.exported == name) = none

/-- A file lists a name that it declares. -/
inductive DeclaresListed (program : Program) (index : Nat) (name : String) : Prop where
  | intro {file : SourceFile} {entry : TypeScript.ExportEntry} {kind : TypeScript.DeclarationKind}
      (made : Lowered program index file) (noDefault : NoDefault file name)
      (found : file.exports.named.find? (·.exported == name) = some entry)
      (declared : file.exports.kindOf? entry.localName = some kind)

/-- The chains from a name of a file lead to members of files, and one of them ends. -/
structure Settled (program : Program) (index : Nat) (name : String) : Prop where
  ends : ∃ target, ReachesEnd program (.offered index name) target
  members : ∀ target, ReachesEnd program (.offered index name) target →
    ∃ other member, target = .member other member

theorem DeclaresListed.settled (declares : DeclaresListed program index name) :
    Settled program index name := by
  obtain @⟨file, entry, kind, made, noDefault, found, declared⟩ := declares
  have listed := step_listed made noDefault found
  by_cases renamed : entry.isRenamed
  · rw [if_pos renamed] at listed
    refine ⟨⟨_, _, .refl, .renamed made noDefault found renamed⟩, fun target reaches => ?_⟩
    exact ⟨_, _, offered_renamed listed reaches⟩
  · rw [if_neg renamed, localOrigin_declared declared] at listed
    have leads := Leads.listed made noDefault found ((Bool.not_eq_true _).mp renamed)
    refine ⟨⟨_, _, .single leads, .declared made.here declared⟩, fun target reaches => ?_⟩
    exact ⟨_, _, offered_found listed reaches⟩

/-- What a file passed on, at any distance, says of a name: it passes the name on as one of all,
or the name is settled. -/
def EntriesSettled (program : Program) (start : Nat) (name : String) : Prop :=
  ∀ index, ReflTransGen (StarLinks program) start index → ∀ file, Lowered program index file →
    Bare file name ∨ Settled program index name

theorem exists_end_of_starLinks (other : name ≠ "default")
    (reached : ReflTransGen (StarLinks program) start target)
    (settled : Settled program target name)
    (entries : EntriesSettled program start name) :
    ∃ last, ReachesEnd program (.offered start name) last := by
  induction reached using ReflTransGen.head_induction_on with
  | refl => exact settled.ends
  | @head first second link _ second_ends =>
    obtain ⟨file, made, listed⟩ := link
    rcases entries first .refl file made with bare | firstSettled
    · obtain ⟨specifier, written, resolved⟩ := mem_wildcardTargets.mp listed
      have leads := Leads.star made bare.unlisted bare.notPassed other written resolved
      obtain ⟨last, place, chain, ends⟩ :=
        second_ends fun index behind => entries index (.head ⟨file, made, listed⟩ behind)
      exact ⟨last, place, .head leads chain, ends⟩
    · exact firstSettled.ends

theorem Bare.leads (bare : Bare file name) (made : Lowered program index file)
    (other : name ≠ "default") {next : Place} (leads : Leads program (.offered index name) next) :
    ∃ target, StarLinks program index target ∧ next = .offered target name := by
  cases leads with
  | default => exact absurd rfl other
  | listed there _ found =>
    cases made.here.symm.trans there.here
    cases bare.unlisted.none.symm.trans found
  | passed there _ found =>
    cases made.here.symm.trans there.here
    cases bare.notPassed.symm.trans found
  | star there _ _ _ listed resolved =>
    exact ⟨_, ⟨_, there, mem_wildcardTargets.mpr ⟨_, listed, resolved⟩⟩, rfl⟩

theorem Bare.not_ends (bare : Bare file name) (made : Lowered program index file)
    (other : name ≠ "default") (reached : Target) :
    ¬Ends program (.offered index name) reached := by
  have same := step_unlisted made bare.unlisted
  rw [passedOn_star bare.notPassed other] at same
  exact not_ends_of_follow same reached

theorem exists_file_of_reachesEnd (reaches : ReachesEnd program (.offered index name) reached) :
    ∃ file, program.files[index]? = some file := by
  by_contra missing
  have outside : (index, name) ∉ queries program name := by
    intro listed
    exact missing ⟨_, getElem?_eq_getElem (mem_queries.mp listed).1⟩
  have nothing : resolve program index name = none := by
    rw [resolve, search_skip outside, search]
  exact not_reachesEnd_of_resolve_eq_none nothing reached reaches

/-- Where a name that is passed on with all others may lead: to a member of a file, or into a
declaration file that is passed on. -/
def EndsWell (program : Program) (start : Nat) (reached : Target) : Prop :=
  (∃ index member, reached = .member index member) ∨
    reached = .ambient ∧ ∃ index file, ReflTransGen (StarLinks program) start index ∧
      program.files[index]? = some file ∧ file.isLowered = false

/-- A chain from a file passed on ends well, or else the file passes the name on with all
others. -/
theorem endsWell_or_bare (entries : EntriesSettled program start name)
    (linked : ReflTransGen (StarLinks program) start index)
    (reaches : ReachesEnd program (.offered index name) reached) :
    EndsWell program start reached ∨ ∃ file, Lowered program index file ∧ Bare file name := by
  obtain ⟨file, here⟩ := exists_file_of_reachesEnd reaches
  by_cases lowered : file.isLowered
  · have made : Lowered program index file := ⟨here, lowered⟩
    rcases entries index linked file made with bare | settled
    · exact .inr ⟨file, made, bare⟩
    · exact .inl (.inl (settled.members reached reaches))
  · have declares := (Bool.not_eq_true _).mp lowered
    have same := offered_found (step_ambient here declares) reaches
    exact .inl (.inr ⟨same, index, file, linked, here, declares⟩)

theorem endsWell_of_starLinks (other : name ≠ "default")
    (entries : EntriesSettled program start name)
    (linked : ReflTransGen (StarLinks program) start index)
    (reaches : ReachesEnd program (.offered index name) reached) :
    EndsWell program start reached := by
  obtain ⟨last, chain, ends⟩ := reaches
  -- The invariant of the chain: it goes through files passed on as a whole, with the name as it is.
  generalize origin : Place.offered index name = place at chain
  induction chain using ReflTransGen.head_induction_on generalizing index with
  | refl =>
    subst origin
    rcases endsWell_or_bare entries linked ⟨_, .refl, ends⟩ with well | ⟨file, made, bare⟩
    · exact well
    · exact absurd ends (bare.not_ends made other reached)
  | head leads behind next_ends =>
    subst origin
    rcases endsWell_or_bare entries linked ⟨_, .head leads behind, ends⟩ with
      well | ⟨file, made, bare⟩
    · exact well
    · obtain ⟨next, link, rfl⟩ := bare.leads made other leads
      exact next_ends (linked.tail link) rfl

theorem lowered_of_member
    (reaches : ReachesEnd program (.offered index name) (.member target member)) :
    ∃ file, Lowered program target file := by
  obtain ⟨last, chain, ends⟩ := reaches
  cases ends with
  | expression made | renamed made => exact ⟨_, made⟩
  | declared => exact lowered_of_bound chain

namespace Sample

def barrel (wildcards : List String) : SourceFile :=
  Sample.file "/u.ts" { TypeScript.ExportSurface.empty with wildcards := wildcards }

def declarations : SourceFile :=
  { Sample.file "/types.d.ts" .empty with kind := .declaration }

def declarer : SourceFile :=
  Sample.file "/t.ts" { TypeScript.ExportSurface.empty with
    named := [⟨"x", "x", false⟩]
    declarations := [("x", .variable)] }

def starred (wildcards : List String) : Program where
  configPath := none
  root := ⟨"/"⟩
  basePackage := ""
  files := [barrel wildcards, declarations, declarer]

theorem starred_declares (wildcards : List String) : DeclaresListed (starred wildcards) 2 "x" := by
  have made : Lowered (starred wildcards) 2 declarer := ⟨rfl, rfl⟩
  have found : declarer.exports.named.find? (·.exported == "x") = some ⟨"x", "x", false⟩ := rfl
  exact .intro made (fun _ => rfl) found rfl

theorem starred_settled (wildcards : List String) : EntriesSettled (starred wildcards) 0 "x" := by
  intro index _ file made
  have here := made.here
  rcases index with _ | _ | _ | index
  · obtain rfl : barrel wildcards = file := Option.some.inj here
    exact .inl ⟨⟨fun _ => rfl, rfl⟩, rfl⟩
  · obtain rfl : declarations = file := Option.some.inj here
    cases made.lowered
  · exact .inr (starred_declares wildcards).settled
  · cases here

end Sample

open Sample

/-- A name that some file passed on as a whole, at any distance, declares and lists is a member of
a file that a module is made of, whatever the order in which the files are passed on; or else it is
taken to be declared elsewhere, and a declaration file is passed on. Other entries for the name in
the files passed on lead to members by assumption. -/
theorem star_exports_lead_to_members {program : Program} {start target : Nat} {name : String}
    (other : name ≠ "default") (linked : ReflTransGen (StarLinks program) start target)
    (declares : DeclaresListed program target name)
    (entries : EntriesSettled program start name) :
    (∃ index file member kind, resolve program start name = some (.member index member kind) ∧
        Lowered program index file) ∨
      resolve program start name = some .ambient ∧
        ∃ index file, ReflTransGen (StarLinks program) start index ∧
          program.files[index]? = some file ∧ file.isLowered = false := by
  obtain ⟨last, ends⟩ := exists_end_of_starLinks other linked declares.settled entries
  cases found : resolve program start name with
  | none => exact absurd ends (not_reachesEnd_of_resolve_eq_none found last)
  | some result =>
    obtain ⟨query, asked, reaches⟩ := search_sound found
    rw [mem_singleton.mp asked] at reaches
    have well := endsWell_of_starLinks other entries .refl reaches
    cases result with
    | member index member kind =>
      obtain ⟨file, made⟩ := lowered_of_member reaches
      exact .inl ⟨index, file, member, kind, rfl, made⟩
    | whole | foreign => rcases well with ⟨_, _, same⟩ | ⟨same, _⟩ <;> cases same
    | ambient =>
      rcases well with ⟨_, _, same⟩ | ⟨_, declaration⟩
      · cases same
      · exact .inr ⟨rfl, declaration⟩

/-- A name that is declared in a file passed on is found there. -/
theorem starred_name_is_found :
    ReflTransGen (StarLinks (starred ["./t"])) 0 2 ∧
      DeclaresListed (starred ["./t"]) 2 "x" ∧
      EntriesSettled (starred ["./t"]) 0 "x" ∧
      ∃ index file member kind,
        resolve (starred ["./t"]) 0 "x" = some (.member index member kind) ∧
          Lowered (starred ["./t"]) index file := by
  have link : StarLinks (starred ["./t"]) 0 2 := ⟨barrel ["./t"], ⟨rfl, rfl⟩, by decide⟩
  have declares := starred_declares ["./t"]
  have entries := starred_settled ["./t"]
  refine ⟨.single link, declares, entries, ?_⟩
  rcases star_exports_lead_to_members (by decide) (.single link) declares entries with
    found | ⟨elsewhere, _⟩
  · exact found
  · have first : step (starred ["./t"]) (0, "x") = .plain (.follow [(2, "x")]) := by decide
    have second : step (starred ["./t"]) (2, "x") =
      .plain (.found (.member 2 "x" .variable)) := by decide
    rw [resolve, search_follow (by decide) first, singleton_append,
      search_found (by decide) second] at elsewhere
    cases elsewhere

/-- A declaration file that is passed on first hides a name that it neither declares nor offers;
passed on last, it hides nothing. -/
theorem declaration_file_hides_name :
    (∃ declaration, (starred ["./types", "./t"]).files[1]? = some declaration ∧
        declaration.isLowered = false ∧ declaration.exports = .empty) ∧
      StarLinks (starred ["./types", "./t"]) 0 2 ∧
      DeclaresListed (starred ["./types", "./t"]) 2 "x" ∧
      resolve (starred ["./types", "./t"]) 0 "x" = some .ambient ∧
      resolve (starred ["./t", "./types"]) 0 "x" = some (.member 2 "x" .variable) := by
  have link : StarLinks (starred ["./types", "./t"]) 0 2 :=
    ⟨barrel ["./types", "./t"], ⟨rfl, rfl⟩, by decide⟩
  refine ⟨⟨declarations, rfl, rfl, rfl⟩, link, starred_declares _, ?_, ?_⟩
  · have first : step (starred ["./types", "./t"]) (0, "x") =
        .plain (.follow [(1, "x"), (2, "x")]) := by decide
    have second : step (starred ["./types", "./t"]) (1, "x") = .plain (.found .ambient) := by
      decide
    rw [resolve, search_follow (by decide) first, cons_append, search_found (by decide) second]
  · have first : step (starred ["./t", "./types"]) (0, "x") =
        .plain (.follow [(2, "x"), (1, "x")]) := by decide
    have second : step (starred ["./t", "./types"]) (2, "x") =
        .plain (.found (.member 2 "x" .variable)) := by decide
    rw [resolve, search_follow (by decide) first, cons_append, search_found (by decide) second]

end Haxify.Exports
