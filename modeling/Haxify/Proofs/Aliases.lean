import Haxify.Proofs.DeclaredNames
import Haxify.Proofs.Reexports

/-!
# Names offered under other names

A file that lists a name under another one gets an item for it: a class that extends the other, a
type alias, or a value. Other files are told the kind of that item by the search for exported
names. The two are found separately. The file asks what its own name stands for; the search asks
the same in the middle of another search, in which the alias has been asked for. Main statement:
they agree, unless the name is a foreign type or leads back to the alias.
-/

namespace Haxify.Exports

open Relation

variable {program : Program} {index : Nat} {file : SourceFile} {name : String}

/-- The search comes from one query to another. -/
def Asks (program : Program) (query next : Query) : Prop :=
  ∃ followed, Follows (step program query) followed ∧ next ∈ followed

/-- Two lists of queries with the same ones among those that can be asked. -/
structure Alike (askable : Query → Prop) (left right : List Query) : Prop where
  left_nodup : left.Nodup
  right_nodup : right.Nodup
  same : ∀ query, askable query → (query ∈ left ↔ query ∈ right)

theorem search_congr {askable : Query → Prop}
    (complete : ∀ query next, askable query → Asks program query next → askable next)
    {left right pending : List Query} (alike : Alike askable left right)
    (known : ∀ query ∈ pending, askable query) :
    search program left pending = search program right pending := by
  refine search_eq_of_related (Alike askable)
    (fun query followed known follows next inside => complete query next known ⟨_, follows, inside⟩)
    (fun {left right query} alike known listed => ⟨(alike.same _ known).mp listed,
      alike.left_nodup.erase _, alike.right_nodup.erase _, fun other inside => ?_⟩)
    (fun rest alike known skipped => ⟨_, alike, search_skip fun member =>
      skipped ((alike.same _ known).mpr member)⟩) alike known
  rw [alike.left_nodup.mem_erase_iff, alike.right_nodup.mem_erase_iff, alike.same other inside]

theorem mem_queries_of_asks {query next : Query} {member : String} {origin : Origin}
    (here : query.1 < program.files.length)
    (renamed : step program query = .renamed member origin)
    (asks : TransGen (Asks program) query next) (name : String) : next ∈ queries program name := by
  induction asks with
  | single first =>
    obtain ⟨followed, plain | ⟨other, same⟩, inside⟩ := first
    · cases renamed.symm.trans plain
    · exact mem_queries_of_renamed here same _ inside
  | tail _ last before =>
    obtain ⟨followed, follows, inside⟩ := last
    exact mem_queries_of_follows before follows _ inside

/-- A name that is offered under another one and does not lead back to it is a member of its file,
of the kind that goes with what the name stands for in the file. -/
theorem resolve_renamed {entry : TypeScript.ExportEntry} (made : Lowered program index file)
    (noDefault : NoDefault file name)
    (found : file.exports.named.find? (·.exported == name) = some entry) (renamed : entry.isRenamed)
    (noCycle : ¬TransGen (Asks program) (index, name) (index, name)) :
    resolve program index name = some (.member index (Haxe.sanitize name)
      (renamedKind (resolveLocal program index entry.localName))) := by
  have here := (List.getElem?_eq_some_iff.mp made.here).1
  have allowed : (index, name) ∈ queries program name := mem_queries.mpr ⟨here, .head _⟩
  have same := step_listed made noDefault found
  rw [if_pos renamed] at same
  rw [resolve, search, if_pos (by simpa using allowed), same]
  simp only [resolveLocal, made.here]
  cases origin : localOrigin program index file entry.localName with
  | found result => rfl
  | follow pending =>
    rw [origin] at same
    have equal : search program ((queries program name).erase (index, name)) pending =
        search program (queries program "default") pending := by
      have complete (query next : Query) (before : TransGen (Asks program) (index, name) query)
          (asks : Asks program query next) : TransGen (Asks program) (index, name) next :=
        before.tail asks
      refine search_congr complete ⟨(nodup_queries program name).erase _,
        nodup_queries program "default", fun query asks => ?_⟩ fun query inside => ?_
      · rw [(nodup_queries program name).mem_erase_iff]
        have differs : query ≠ (index, name) := by
          rintro rfl
          exact noCycle asks
        exact iff_of_true ⟨differs, mem_queries_of_asks here same asks name⟩
          (mem_queries_of_asks here same asks "default")
      · exact .single ⟨pending, .inr ⟨_, same⟩, inside⟩
    simp only [equal]

end Haxify.Exports

namespace Haxify.Lower

open List
open Exports (renamedKind Asks step Lowered resolve)
open Lowering
open TypeScript (Node DeclarationKind ExportSurface ExportEntry)

section Surfaces

/-- No name is offered as a default export under another name of the list. -/
def NamedApart (surface : ExportSurface) : Prop :=
  ∀ entry ∈ surface.named, entry.isRenamed → entry.exported ≠ "default"

variable {surface : ExportSurface}

theorem NamedApart.offering (apart : NamedApart surface) (declaration : Node) (isDefault : Bool) :
    NamedApart (surface.offering declaration isDefault) := by
  intro entry listed renamed
  unfold ExportSurface.offering at listed
  dsimp only at listed
  split at listed
  · split at listed
    all_goals exact apart entry listed renamed
  · rcases mem_append.mp listed with earlier | new
    · exact apart entry earlier renamed
    · obtain ⟨declared, _, rfl⟩ := mem_map.mp new
      simp [ExportEntry.isRenamed] at renamed

theorem NamedApart.listing (apart : NamedApart surface) (source : Option String) (typeOnly : Bool)
    (specifier : Node) : NamedApart (surface.listing source typeOnly specifier) := by
  intro entry listed renamed
  unfold ExportSurface.listing at listed
  split at listed
  · exact apart entry listed renamed
  dsimp only at listed
  split at listed
  · exact apart entry listed renamed
  split at listed
  · exact apart entry listed renamed
  rename_i other
  rcases mem_append.mp listed with earlier | new
  · exact apart entry earlier renamed
  · rw [mem_singleton.mp new]
    simpa using other

theorem NamedApart.exporting (apart : NamedApart surface) (statement : Node) :
    NamedApart (surface.exporting statement) := by
  unfold ExportSurface.exporting
  dsimp only
  split
  · exact apart.offering _ _
  split
  · split <;> exact apart
  split
  · exact foldlRecOn _ _ apart fun _ before specifier _ => before.listing _ _ specifier
  · unfold ExportSurface.passingOn
    split
    · exact apart
    · split <;> exact apart
  · exact apart

theorem namedApart_exportsOf (tree : Node) : NamedApart (TypeScript.exportsOf tree) := by
  obtain ⟨add, folded, rule⟩ := exists_exportsOf_eq_foldl
  rw [folded]
  refine foldlRecOn _ add (fun _ listed => nomatch listed) fun surface apart statement _ => ?_
  rw [rule]
  split
  · exact apart
  split
  · exact apart.exporting statement
  · exact apart

end Surfaces

section Items

variable {context : Context} {state after : State} {entry : ExportEntry} {item : String}

/-- The item for a name offered under another one goes with the kind of the alias. -/
structure AliasAgrees (entry : ExportEntry) (kind : DeclarationKind) (item : String) : Prop where
  isAlias : kind = .classType ∨ kind = .typeAlias ∨ kind = .variable
  isClass : kind = .classType ↔ item = "class " ++ Haxe.sanitize entry.exported ++ " extends " ++
    Haxe.sanitize entry.localName ++ " \x7b\x7d"
  isType : kind = .typeAlias ↔
    ∃ target, item = "typedef " ++ Haxe.sanitize entry.exported ++ " = " ++ target ++ ";"
  isValue : kind = .variable ↔
    ∃ target, item = "final " ++ Haxe.sanitize entry.exported ++ " = " ++ target ++ ";"

theorem item_ne_of_head {word other : String} {one two : Char}
    (word_head : word.toList.head? = some one) (other_head : other.toList.head? = some two)
    (differ : one ≠ two) {name between target last name' between' target' last' : String} :
    word ++ name ++ between ++ target ++ last ≠ other ++ name' ++ between' ++ target' ++ last' := by
  intro same
  have heads := congrArg (fun text => text.toList.head?) same
  simp [String.toList_append, word_head, other_head] at heads
  exact differ heads

theorem aliasAgrees_class :
    AliasAgrees entry .classType ("class " ++ Haxe.sanitize entry.exported ++
    " extends " ++ Haxe.sanitize entry.localName ++ " \x7b\x7d") where
  isAlias := .inl rfl
  isClass := iff_of_true rfl rfl
  isType := iff_of_false (by decide) (not_exists.mpr fun _ => item_ne_of_head rfl rfl (by decide))
  isValue := iff_of_false (by decide) (not_exists.mpr fun _ => item_ne_of_head rfl rfl (by decide))

theorem aliasAgrees_type (target : String) : AliasAgrees entry .typeAlias
    ("typedef " ++ Haxe.sanitize entry.exported ++ " = " ++ target ++ ";") where
  isAlias := .inr (.inl rfl)
  isClass := iff_of_false (by decide) (item_ne_of_head rfl rfl (by decide))
  isType := iff_of_true rfl ⟨target, rfl⟩
  isValue := iff_of_false (by decide) (not_exists.mpr fun _ => item_ne_of_head rfl rfl (by decide))

theorem aliasAgrees_value (target : String) : AliasAgrees entry .variable
    ("final " ++ Haxe.sanitize entry.exported ++ " = " ++ target ++ ";") where
  isAlias := .inr (.inr rfl)
  isClass := iff_of_false (by decide) (item_ne_of_head rfl rfl (by decide))
  isType := iff_of_false (by decide) (not_exists.mpr fun _ => item_ne_of_head rfl rfl (by decide))
  isValue := iff_of_true rfl ⟨target, rfl⟩

theorem aliasAgrees_of_spelled {view : View}
    (value : view.context.spellings.lookup entry.localName ≠ some .foreignType)
    (spelled : spelledAlias view entry = .ok item) : AliasAgrees entry .variable item := by
  rw [spelledAlias] at spelled
  dsimp only at spelled
  split at spelled
  · cases spelled
    exact aliasAgrees_value _
  · cases spelled
    exact aliasAgrees_value _
  · rename_i isType
    rw [View.spelling?] at isType
    split at isType
    · cases isType
    · exact absurd isType value
  · cases spelled
  · cases spelled
  · cases spelled
    exact aliasAgrees_value _

theorem aliasAgrees_of_exportAlias
    (value : context.spellings.lookup entry.localName ≠ some .foreignType)
    (run : (exportAlias entry).evaluate context state = (.ok item, after)) :
    AliasAgrees entry (renamedKind
      (Exports.resolveLocal context.program context.index entry.localName)) item := by
  obtain ⟨view, between, seen, written⟩ := bind_eq_ok.mp run
  cases seen
  dsimp only at written
  split at written
  · rename_i same
    obtain ⟨rfl, _⟩ := pure_eq_ok.mp written
    rw [same]
    exact aliasAgrees_class
  iterate 2
    · rename_i same
      obtain ⟨rfl, _⟩ := pure_eq_ok.mp written
      rw [same]
      exact aliasAgrees_type _
  · rename_i noClass noInterface noAlias
    have kind : renamedKind
        (Exports.resolveLocal context.program context.index entry.localName) = .variable := by
      unfold renamedKind
      split
      · exact absurd ‹_› (noClass _ _)
      · exact absurd ‹_› (noInterface _ _)
      · exact absurd ‹_› (noAlias _ _)
      · rfl
    rw [kind]
    split at written
    · rename_i spelled
      obtain ⟨rfl, _⟩ := pure_eq_ok.mp written
      exact aliasAgrees_of_spelled value spelled
    · cases written

theorem aliases_of_fileItems {items : List String}
    (run : fileItems.evaluate context state = (.ok items, after)) :
    ∃ declared aliases, items = declared ++ aliases ∧
      Forall₂ (fun entry item => ∃ before behind,
        (exportAlias entry).evaluate context before = (.ok item, behind))
        (context.file.exports.named.filter (·.isRenamed)) aliases := by
  obtain ⟨_, between, read, rest⟩ := bind_eq_ok.mp run
  cases read
  obtain ⟨declared, middle, _, last⟩ := bind_eq_ok.mp rest
  obtain ⟨aliases, final, aliasRun, finish⟩ := bind_eq_ok.mp last
  obtain ⟨rfl, _⟩ := pure_eq_ok.mp finish
  obtain ⟨_, _, readAgain, each⟩ := bind_eq_ok.mp aliasRun
  cases readAgain
  exact ⟨declared.flatten, aliases, rfl, forall₂_of_forEach each⟩

end Items

namespace Sample

def exportAs (localName exported : String) : Node :=
  node "export_statement" "" "" [node "export_clause" "" "" [node "export_specifier" "" ""
    [identifier "name" localName, identifier "alias" exported]]]

def aliasText : String := "class A \x7b\x7d export \x7b A as B \x7d;"

def aliasFile : SourceFile :=
  Program.fileOf "app" ⟨"/project/main.ts"⟩ ⟨"main.ts"⟩ .script aliasText (node "program" "" ""
    [node "class_declaration" "" ""
      [node "type_identifier" "name" "A" [], node "class_body" "body" "" []], exportAs "A" "B"])

def aliasProgram : Program := ⟨none, ⟨"/project"⟩, "app", [aliasFile]⟩

theorem aliasProgram_eq : Program.assemble (reading aliasText aliasFile.tree) ⟨"/project"⟩ "app"
    [(⟨"/project/main.ts"⟩, aliasText)] = .ok aliasProgram := by
  rw [Program.assemble_of_sorted (by simp)]
  rfl

theorem aliasProgram_noCycle : ¬Relation.TransGen (Asks aliasProgram) (0, "B") (0, "B") := by
  intro cycle
  have known : step aliasProgram (0, "B") =
      .renamed "B" (.found (.member 0 "A" .classType)) := by decide +kernel
  obtain ⟨_, ⟨followed, follows, _⟩, _⟩ := Relation.TransGen.head'_iff.mp cycle
  rcases follows with plain | ⟨member, renamed⟩
  · cases known.symm.trans plain
  · cases known.symm.trans renamed

def typeAliasFile : SourceFile :=
  Program.fileOf "app" ⟨"/project/main.ts"⟩ ⟨"main.ts"⟩ .script
    "import type \x7b T \x7d from 'lib'; export \x7b T as U \x7d;" (node "program" "" ""
      [node "import_statement" "" "" [node "type" "" "type" [],
        node "import_clause" "" "" [node "named_imports" "" "" [node "import_specifier" "" "T"
          [identifier "name" "T"]]], node "string" "source" "'lib'" []],
        exportAs "T" "U"])

def typeAliasProgram : Program := ⟨none, ⟨"/project"⟩, "app", [typeAliasFile]⟩

end Sample

open Sample

/-- The kind that other files see for a name offered under another one agrees with the item that
its file has for it, unless the name is a foreign type or the alias leads back to itself. -/
theorem alias_kinds_agree_with_items {grammar : Grammar} {root : Path} {basePackage : String}
    {sources : List (Path × String)} {program : Program} {registry : Foreign.Registry}
    {indent : String} {index : Nat} {file : SourceFile} {output : Haxe.File}
    (assembled : Program.assemble grammar root basePackage sources = .ok program)
    (made : Lowered program index file)
    (translated : (lowerFile program registry indent index file).result = .ok output) :
    ∃ imports declared aliases, importsOf program registry file = .ok imports ∧
      output.text = moduleText file.address imports.lines (declared ++ aliases) ∧
      Forall₂ (fun entry item =>
        file.exports.named.find? (·.exported == entry.exported) = some entry →
          imports.spellings.lookup entry.localName ≠ some .foreignType →
            ¬Relation.TransGen (Asks program) (index, entry.exported)
                (index, entry.exported) →
              ∃ kind, resolve program index entry.exported =
                  some (.member index (Haxe.sanitize entry.exported) kind) ∧
                AliasAgrees entry kind item)
        (file.exports.named.filter (·.isRenamed)) aliases := by
  obtain ⟨imports, items, last, found, outcome, rfl⟩ := lowerFile_eq_ok translated
  obtain ⟨declared, aliases, rfl, written⟩ := aliases_of_fileItems outcome
  refine ⟨imports, declared, aliases, found, rfl, ?_⟩
  have each := (forall₂_and_left _ _).mpr ⟨fun entry listed => listed, written⟩
  refine each.imp ?_
  rintro entry item ⟨member, before, behind, run⟩ first value noCycle
  have renamed := (mem_filter.mp member).2
  have listed := mem_of_find?_eq_some first
  have surface := exports_of_assemble assembled file (mem_of_getElem? made.here)
  have noDefault : Exports.NoDefault file entry.exported := by
    intro isDefault
    rw [surface] at listed
    exact absurd isDefault (namedApart_exportsOf file.tree entry listed renamed)
  exact ⟨_, Exports.resolve_renamed made noDefault first renamed noCycle,
    aliasAgrees_of_exportAlias value run⟩

/-- A class that is offered under another name is one for other files too. -/
theorem renamed_class_is_class :
    ∃ output, (lowerFile aliasProgram .empty "  " 0 aliasFile).result = .ok output ∧
      ∃ declared item, output.text = moduleText aliasFile.address [] (declared ++ [item]) ∧
        ∃ kind, resolve aliasProgram 0 "B" = some (.member 0 "B" kind) ∧
          AliasAgrees ⟨"B", "A", false⟩ kind item := by
  have accepted : (lowerFile aliasProgram .empty "  " 0 aliasFile).result.isOk := by
    decide +kernel
  obtain ⟨output, translated⟩ := Program.exists_eq_ok accepted
  have made : Lowered aliasProgram 0 aliasFile := ⟨rfl, by decide⟩
  obtain ⟨imports, declared, aliases, found, text, agree⟩ :=
    alias_kinds_agree_with_items aliasProgram_eq made translated
  have none : importsOf aliasProgram .empty aliasFile = .ok .none := by decide +kernel
  cases none.symm.trans found
  have renamed : aliasFile.exports.named.filter (·.isRenamed) = [⟨"B", "A", false⟩] := by
    decide +kernel
  rw [renamed] at agree
  obtain ⟨item, rest, first, last, rfl⟩ := forall₂_cons_left_iff.mp agree
  cases last
  have aliased := first (by decide +kernel) (by decide) aliasProgram_noCycle
  exact ⟨output, translated, declared, item, text, aliased⟩

/-- A foreign type that is offered under another name is a type in its file and a variable for
other files. -/
theorem renamed_foreign_type_is_variable :
    (lowerFile typeAliasProgram .empty "  " 0 typeAliasFile).result =
        .ok ⟨⟨"app", "Main"⟩, "package app;\n\ntypedef U = Dynamic;\n"⟩ ∧
      resolve typeAliasProgram 0 "U" = some (.member 0 "U" .variable) := by
  constructor
  · decide +kernel
  · have known : step typeAliasProgram (0, "U") =
        .renamed "U" (.found (.foreign "lib" (some "T"))) := by decide +kernel
    have allowed : (0, "U") ∈ Exports.queries typeAliasProgram "U" := by decide +kernel
    rw [resolve, Exports.search, if_pos (by simpa using allowed), known]
    rfl

end Haxify.Lower
