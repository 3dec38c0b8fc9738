import Haxify.Proofs.DisciplineOfFiles
import Haxify.Proofs.SwitchLowering

/-!
# Names and temporaries of a file

Temporaries are numbered past the words of the source, so a temporary is none of the names of
the file and differs from every name that is legal as it stands, and from every temporary
taken later.
-/

namespace Haxify.Lower

open List
open TypeScript (Node)

variable {char : Char} {passing : Nat}
variable {number : Nat}

/-- A name that stands in a text as a word of its own. -/
def StandsIn (name source : String) : Prop :=
  ∃ before after : List Char, source.toList = before ++ (name.toList ++ after) ∧
    (∀ char ∈ before.getLast?, isNameChar char = false) ∧
    ∀ char ∈ after.head?, isNameChar char = false

def valueNameKinds : List String :=
  ["identifier", "shorthand_property_identifier", "shorthand_property_identifier_pattern"]

def valueNames (tree : Node) : List String :=
  (tree.descendants.filter fun node => valueNameKinds.contains node.kind).map (·.text)

/-- A grammar that reads names as the words of the text, each to its last character. -/
def ReadsWords (grammar : Grammar) : Prop :=
  ∀ kind source tree, grammar kind source = some tree →
    ∀ name ∈ valueNames tree, StandsIn name source

-- No end of the stem but the whole of it begins it, so its occurrences do not overlap.
theorem length_le_of_later_stem {front gone behind : List Char}
    (same : tempStem.toList ++ front = char :: gone ++ (tempStem.toList ++ behind)) :
    tempStem.length - 1 ≤ gone.length := by
  by_contra short
  have stem : tempStem.toList = ['_', '_', 't', 'm', 'p'] := rfl
  have four : tempStem.length - 1 = 4 := rfl
  rw [stem] at same
  rcases gone with _ | ⟨_, _ | ⟨_, _ | ⟨_, _ | _⟩⟩⟩ <;> simp_all

theorem passed_cons {before front rest tail : List Char} :
    (∃ gone, char :: rest = gone ++ tail ∧ passing ≤ gone.length ∧ front = gone.reverse ++ before) ↔
      char :: rest = tail ∧ passing = 0 ∧ front = before ∨
        ∃ gone, rest = gone ++ tail ∧ passing ≤ gone.length + 1 ∧
          front = gone.reverse ++ char :: before := by
  constructor
  · rintro ⟨_ | ⟨_, gone⟩, parts, long, rfl⟩
    · exact .inl ⟨parts, Nat.le_zero.mp long, rfl⟩
    · cases parts
      exact .inr ⟨gone, rfl, long, by simp⟩
  · rintro (⟨rfl, rfl, rfl⟩ | ⟨gone, rfl, long, rfl⟩)
    · exact ⟨[], rfl, Nat.le_refl 0, rfl⟩
    · exact ⟨char :: gone, rfl, long, by simp⟩

theorem mem_stemMatches {before front chars behind : List Char} :
    (front, behind) ∈ stemMatches passing before chars ↔
      ∃ gone, chars = gone ++ (tempStem.toList ++ behind) ∧ passing ≤ gone.length ∧
        front = gone.reverse ++ before := by
  fun_induction stemMatches passing before chars with
  | case1 => simp [tempStem]
  | case2 passing before char rest later =>
    rw [later, passed_cons]
    simp
  | case3 before char rest found later =>
    obtain ⟨next, here⟩ := isPrefixOf_iff_prefix.mp found
    have next_eq : (char :: rest).drop tempStem.length = next := by rw [← here]; exact drop_left
    rw [mem_cons, later, passed_cons, next_eq, Prod.mk.injEq]
    refine or_congr ?_ (exists_congr fun gone => and_congr_right fun parts => and_congr_left' ?_)
    · rw [← here, append_cancel_left_eq, eq_comm (a := next)]
      simp [and_comm]
    · rw [parts] at here
      simp [length_le_of_later_stem here]
  | case4 before char rest absent later =>
    have other : char :: rest ≠ tempStem.toList ++ behind := by
      rintro here
      exact absent (List.isPrefixOf_iff_prefix.mpr ⟨behind, here.symm⟩)
    rw [later, passed_cons]
    simp [other]

theorem tempNameAt?_eq_some_iff {before behind : List Char} {word : String} :
    tempNameAt? before behind = some word ↔
      (∀ char ∈ before.head?, isNameChar char = false) ∧ ∃ digits after, behind = digits ++ after ∧
        digits ≠ [] ∧ (∀ char ∈ digits, char.isDigit) ∧
        (∀ char ∈ after.head?, isNameChar char = false) ∧
        word.toList = tempStem.toList ++ digits := by
  simp only [tempNameAt?, Option.ite_none_left_eq_some, Option.some.injEq, Bool.not_eq_true,
    Bool.or_eq_false_iff, Option.any_eq_false, isEmpty_eq_false_iff, and_assoc]
  refine and_congr_right fun _ => ⟨?_, ?_⟩
  · rintro ⟨some, after, rfl⟩
    have parts := prefix_iff_eq_append.mp (List.takeWhile_prefix (l := behind) Char.isDigit)
    exact ⟨_, _, parts.symm, some, fun _ => mem_takeWhile_imp, after, by simp⟩
  · rintro ⟨digits, after, rfl, some, numeral, free, spelled⟩
    have whole : (digits ++ after).takeWhile Char.isDigit = digits := by
      rw [takeWhile_append_of_pos numeral]
      cases after with
      | nil => simp
      | cons char rest =>
        have other := free char rfl
        simp_all [isNameChar, Char.isAlphanum]
    rw [whole, drop_left]
    exact ⟨some, free, String.toList_inj.mp (by simp [spelled])⟩

theorem mem_tempNamesIn_iff {word source : String} :
    word ∈ tempNamesIn source ↔ StandsIn word source ∧
      ∃ digits, word.toList = tempStem.toList ++ digits ∧
        digits ≠ [] ∧ ∀ char ∈ digits, char.isDigit := by
  rw [tempNamesIn, mem_filterMap]
  constructor
  · rintro ⟨⟨_, _⟩, found, named⟩
    obtain ⟨before, parts, _, rfl⟩ := mem_stemMatches.mp found
    obtain ⟨front, digits, after, rfl, some, numeral, free, spelled⟩ :=
      tempNameAt?_eq_some_iff.mp named
    refine ⟨⟨before, after, ?_, by simpa using front, free⟩, digits, spelled, some, numeral⟩
    rw [parts, spelled, append_assoc]
  · rintro ⟨⟨before, after, parts, front, free⟩, digits, spelled, some, numeral⟩
    rw [spelled, append_assoc] at parts
    refine ⟨(before.reverse, digits ++ after), mem_stemMatches.mpr ⟨before, parts, by simp⟩, ?_⟩
    exact tempNameAt?_eq_some_iff.mpr
      ⟨by simpa using front, digits, after, rfl, some, numeral, free, spelled⟩
theorem lookalike_of_sanitize_eq_tempName {name : String}
    (same : Haxe.sanitize name = tempName number) : Haxe.Lookalike name (tempName number) := by
  have legal := isIdentifier_tempName number
  obtain ⟨form, free⟩ := Haxe.legalForm_of_isIdentifier legal
  rw [← Haxe.sanitize_of_isIdentifier legal, Haxe.sanitize_eq_iff, Haxe.reservedTwins_iff,
    Haxe.reservedTwins_iff, form, free] at same
  rcases same with alike | ⟨_, spelled⟩ | ⟨reserved, _⟩
  · exact alike
  · -- A temporary ends in a digit, and the spelling of a reserved word does not.
    have last : (Nat.toDigits 10 number).getLast? = some '_' := by
      have ends := congrArg (fun text => text.toList.getLast?) spelled
      simp only [toList_tempName, String.toList_append, getLast?_append] at ends
      cases digits : (Nat.toDigits 10 number).getLast? with
      | none => exact absurd (getLast?_eq_none_iff.mp digits) Nat.toDigits_ne_nil
      | some digit => simpa [digits] using ends
    have digit := isDigit_of_mem_toDigits (mem_of_getLast? last)
    cases digit
  · cases reserved

theorem tempName_injective : Function.Injective tempName := by
  intro first second same
  exact Text.toString_injective ((String.append_right_inj tempStem).mp same)

theorem evaluate_freshTemp (context : Context) (state : State) :
    freshTemp.evaluate context state =
      (.ok (tempName (Text.leastFree tempName context.takenTemps state.nextTemp)),
        { state with
          nextTemp := Text.leastFree tempName context.takenTemps state.nextTemp + 1 }) := rfl

theorem freshTemp_ne_of_later {context : Context} {before after later last : State}
    {temp other : String} (first : freshTemp.evaluate context before = (.ok temp, after))
    (gone : after.nextTemp ≤ later.nextTemp)
    (second : freshTemp.evaluate context later = (.ok other, last)) : other ≠ temp := by
  rw [evaluate_freshTemp] at first second
  cases first
  cases second
  intro same
  have equal := tempName_injective same
  have behind := Text.le_leastFree tempName context.takenTemps later.nextTemp
  simp only at gone
  omega

theorem exists_parse_of_assemble {grammar : Grammar} {root : Path} {basePackage : String}
    {sources : List (Path × String)} {program : Program}
    (assembled : Program.assemble grammar root basePackage sources = .ok program) :
    ∀ file ∈ program.files, ∃ kind, grammar kind file.source = some file.tree := by
  intro file member
  obtain ⟨_, _, kind, _, _, parsed, rfl⟩ := Program.exists_fileOf_of_assemble assembled file member
  exact ⟨kind, (Program.parse_eq_ok.mp parsed).1⟩

namespace Sample

def reading (text : String) (tree : Node) : Grammar := fun _ source =>
  if source = text then some tree else none

def tempLikeText : String := "let __tmp0 = a$;"

def tempLike : Node :=
  node "program" "" tempLikeText [node "lexical_declaration" "" tempLikeText
    [node "variable_declarator" "" "__tmp0 = a$"
      [identifier "name" "__tmp0", identifier "value" "a$"]]]

def tempLikeProgram : Except ProjectError Program :=
  Program.assemble (reading tempLikeText tempLike) ⟨"/project"⟩ "app"
    [(⟨"/project/main.ts"⟩, tempLikeText)]

def parameter (name : String) : Node :=
  node "required_parameter" "" name [identifier "pattern" name]

def lookalikes : Node :=
  node "function_declaration" "" ""
    [identifier "name" "f",
      node "formal_parameters" "parameters" "" [parameter "$_tmp0", parameter "a$", parameter "a_"],
      node "statement_block" "body" ""
        [node "lexical_declaration" "" "" [node "variable_declarator" ""  ""
          [node "object_pattern" "name" "" [node "shorthand_property_identifier_pattern" "" "a" []],
            identifier "value" "a$"]],
          node "return_statement" "" "" [identifier "" "$_tmp0"]]]

def lookalikesFile : SourceFile where
  path := ⟨"/project/main.ts"⟩
  relative := ⟨"main.ts"⟩
  kind := .script
  source := "function f($_tmp0, a$, a_) \x7b let \x7b a \x7d = a$; return $_tmp0; \x7d"
  tree := node "program" "" "" [lookalikes]
  address := ⟨"app", "Main"⟩
  imports := []
  exports := .empty

def lookalikesProgram : Program := ⟨none, ⟨"/project"⟩, "app", [lookalikesFile]⟩

end Sample

open Sample

/-- Two names of a file are spelled alike exactly when they look alike or are twins of a
reserved word. A temporary can always be taken while the file is lowered; it is none of the
names, it is not how a name is spelled that is legal as it stands or does not look like it, and
it is no later temporary. -/
theorem renaming_separates_names {grammar : Grammar} (words : ReadsWords grammar) {root : Path}
    {basePackage : String} {sources : List (Path × String)} {program : Program}
    (assembled : Program.assemble grammar root basePackage sources = .ok program)
    {file : SourceFile} (member : file ∈ program.files) (registry : Foreign.Registry)
    (indent : String) (index : Nat) (imports : Imports) :
    (∀ left ∈ valueNames file.tree, ∀ right ∈ valueNames file.tree,
      Haxe.sanitize left = Haxe.sanitize right ↔
        Haxe.Lookalike left right ∨ Haxe.ReservedTwins left right ∨ Haxe.ReservedTwins right left) ∧
    ∀ state : State, ∃ temp after,
      freshTemp.evaluate (fileContext program registry indent index file imports) state =
        (.ok temp, after) ∧
      (∀ name ∈ valueNames file.tree, temp ≠ name ∧
        (Haxe.isIdentifier name ∨ ¬Haxe.Lookalike name temp → temp ≠ Haxe.sanitize name)) ∧
      ∀ later last other, after.nextTemp ≤ later.nextTemp →
        freshTemp.evaluate (fileContext program registry indent index file imports) later =
          (.ok other, last) → other ≠ temp := by
  refine ⟨fun left _ right _ => Haxe.sanitize_eq_iff left right, fun state => ?_⟩
  have run := evaluate_freshTemp (fileContext program registry indent index file imports) state
  refine ⟨_, _, run, fun name listed => ?_, fun later last other gone next =>
    freshTemp_ne_of_later run gone next⟩
  obtain ⟨kind, parsed⟩ := exists_parse_of_assemble assembled file member
  have free := Text.leastFree_not_mem tempName_injective (tempNamesIn file.source) state.nextTemp
  have apart :
      tempName (Text.leastFree tempName (tempNamesIn file.source) state.nextTemp) ≠ name := by
    intro same
    have stands := words kind file.source file.tree parsed name listed
    rw [← same] at stands
    exact free (mem_tempNamesIn_iff.mpr ⟨stands, _, toList_tempName _, Nat.toDigits_ne_nil,
      fun _ => isDigit_of_mem_toDigits⟩)
  refine ⟨apart, ?_⟩
  rintro (legal | unlike) same
  · rw [Haxe.sanitize_of_isIdentifier legal] at same
    exact apart same
  · exact unlike (lookalike_of_sanitize_eq_tempName same.symm)

/-- A temporary passes over a name of its form that the file uses. -/
theorem tempLike_name_is_passed_over :
    ReadsWords (reading tempLikeText tempLike) ∧
      ∃ program file, tempLikeProgram = .ok program ∧ file ∈ program.files ∧
        "__tmp0" ∈ valueNames file.tree ∧
        ∃ temp after, freshTemp.evaluate (fileContext program .empty "  " 0 file .none) .initial =
          (.ok temp, after) ∧ temp ≠ "__tmp0" := by
  have words : ReadsWords (reading tempLikeText tempLike) := by
    intro kind source tree parsed name listed
    simp only [reading, Option.ite_none_right_eq_some, Option.some.injEq] at parsed
    obtain ⟨rfl, rfl⟩ := parsed
    have names : valueNames tempLike = ["__tmp0", "a$"] := by decide
    rw [names] at listed
    rcases mem_cons.mp listed with rfl | rest
    · exact ⟨"let ".toList, " = a$;".toList, by decide, by simp [isNameChar], by simp [isNameChar]⟩
    · rw [mem_singleton.mp rest]
      exact ⟨"let __tmp0 = ".toList, ";".toList, by decide, by simp [isNameChar],
        by simp [isNameChar]⟩
  have file_eq : tempLikeProgram =
      .ok ⟨none, ⟨"/project"⟩, "app", [Program.fileOf "app" ⟨"/project/main.ts"⟩ ⟨"main.ts"⟩
        .script tempLikeText tempLike]⟩ := by
    rw [tempLikeProgram, Program.assemble_of_sorted (by simp)]
    rfl
  have listed : "__tmp0" ∈ valueNames tempLike := by decide
  obtain ⟨temp, after, run, apart, _⟩ := (renaming_separates_names words file_eq
    mem_cons_self .empty "  " 0 .none).2 .initial
  exact ⟨words, _, _, file_eq, .head _, listed, temp, after, run, (apart "__tmp0" listed).1⟩

/-- Two parameters are spelled alike, and a third one like the temporary that is taken. -/
theorem renaming_merges_names :
    (lowerFile lookalikesProgram .empty "  " 0 lookalikesFile).result.toOption.map
        (·.text) = some ("package app;\n\nprivate function f(__tmp0, a_, a_) \x7b\n" ++
          "  var __tmp0 = a_;\n  var a = __tmp0.a;\n  return __tmp0;\n\x7d\n") ∧
      (∃ left ∈ valueNames lookalikesFile.tree,
        ∃ right ∈ valueNames lookalikesFile.tree,
          left ≠ right ∧ Haxe.sanitize left = Haxe.sanitize right) ∧
      ∃ name ∈ valueNames lookalikesFile.tree,
        (freshTemp.evaluate (fileContext lookalikesProgram .empty "  " 0
          lookalikesFile .none) .initial).1.toOption = some (Haxe.sanitize name) := by
  refine ⟨by decide +kernel, ⟨"a$", ?_, "a_", ?_, ?_⟩, "$_tmp0", ?_⟩
  all_goals decide +kernel

end Haxify.Lower
