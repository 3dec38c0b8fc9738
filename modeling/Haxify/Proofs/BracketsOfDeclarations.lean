import Haxify.Lower.Module
import Haxify.Proofs.BracketsOfStatements
import Haxify.Proofs.Program
import Haxify.Proofs.Registry

/-!
# Brackets in declarations

The values of enumerations are written as digits or quoted, names that are declared are sanitized
or have no marks in the source, and the members of a class are closed where their texts are
balanced.
-/

namespace Haxify.Lower

open List
open Program (bind_eq_ok exists_of_mapM)
open Haxe (Balanced Unmarked)
open Haxe.Code (Closed)

variable {values : List (String × String)} {view : View}
variable {node : Part}

section Enumerations

variable {α : Type} {members : List (EnumMember α)}

theorem unmarked_of_digits {text : String}
    (plain : ∀ char ∈ text.toList, char.isDigit ∨ char = '.' ∨ char = '-') : Unmarked text := by
  refine Haxe.unmarked_of_forall (fun char => char.isDigit || char == '.' || char == '-')
    (by decide) fun char member => ?_
  simpa [or_assoc] using plain char member

theorem unmarked_positional (number : Number.Decimal) : Unmarked number.positional := by
  have digits {digits : List Char} (all : ∀ char ∈ digits, char.isDigit) :
      Unmarked (String.ofList digits) :=
    unmarked_of_digits fun char member => .inl (all char (by simpa using member))
  have written : ∀ char ∈ Nat.toDigits 10 number.digits, char.isDigit := fun char member =>
    Nat.isDigit_of_mem_toDigits (by decide) (by decide) member
  simp only [Number.Decimal.positional]
  split
  · exact (digits written).append (Haxe.Code.unmarked_copies (by decide) _)
  have filled : ∀ char ∈ List.replicate ((-number.exponent).toNat + 1 -
      (Nat.toDigits 10 number.digits).length) '0' ++ Nat.toDigits 10 number.digits,
      char.isDigit := by
    refine forall_mem_append.mpr ⟨fun char member => ?_, written⟩
    rw [(mem_replicate.mp member).2]
    decide
  exact ((digits fun char member => filled char (mem_of_mem_take member)).append
    (by decide)).append (digits fun char member => filled char (mem_of_mem_drop member))

theorem unmarked_valueText (value : Number.Binary64) : Unmarked (valueText value) := by
  have displayed : Unmarked value.display := by
    cases value with
    | infinite negative => cases negative <;> decide
    | finite negative mantissa exponent =>
      have sign : Unmarked (if negative then "-" else "") := by cases negative <;> decide
      simp only [Number.Binary64.display]
      split
      · exact sign.append (by decide)
      · exact sign.append (unmarked_positional _)
  have whole (integer : Int) : Unmarked (toString integer) := by
    cases integer with
    | ofNat number => exact Haxe.unmarked_toString number
    | negSucc number =>
      exact Unmarked.append (by decide : Unmarked "-") (Haxe.unmarked_toString (number + 1))
  rw [valueText]
  split
  · split
    · exact whole _
    · exact displayed
  · exact displayed

/-- A member of an enum abstract whose name has no marks and whose value is balanced. -/
def BalancedValue (member : String × String) : Prop := Unmarked member.1 ∧ Balanced member.2

/-- An enum abstract whose names have no marks and whose values are balanced. -/
structure BalancedEnum (enumeration : EnumAbstract) : Prop where
  name : Unmarked enumeration.name
  underlying : Unmarked enumeration.underlying
  members : ∀ member ∈ enumeration.members, BalancedValue member

theorem closed_enumeration {enumeration : EnumAbstract} (balanced : BalancedEnum enumeration)
    {visibility : String} (front : Unmarked visibility) : Closed (enumeration.code visibility) := by
  have head :=
    ((front.append (by decide : Unmarked "enum abstract ")).append balanced.name).balanced
  have type := balanced.underlying.balanced
  refine Haxe.Code.closed_block ?_ ?_
  · have opening := head.append (by simp +decide [Haxe.Balanced, type.read_append] :
      Balanced ("(" ++ enumeration.underlying ++ ")"))
    have header := (((opening.append (by decide : Balanced " from ")).append type).append
      (by decide : Balanced " to ")).append type
    simpa [String.append_assoc] using header
  · have each : ∀ text ∈ enumeration.members.map (fun member =>
        "var " ++ member.1 ++ " = " ++ member.2 ++ ";"), Balanced text := by
      refine forall_mem_map.mpr fun member listed => ?_
      obtain ⟨named, valued⟩ := balanced.members member listed
      exact balanced_set (by decide) named.balanced valued
    have lines := Haxe.Code.closed_lines each
    rw [map_map] at lines
    exact lines

theorem unmarked_enumMember {tree : TypeScript.Tree α} {member : EnumMember α}
    (given : enumMember tree = .ok member) : Unmarked member.name := by
  have named {name : TypeScript.Tree α} {text : String} (found : enumMemberName name = .ok text) :
      Unmarked text := by
    rw [enumMemberName] at found
    split at found
    · cases found
      exact Haxe.unmarked_sanitize _
    · split at found
      · cases found
        exact Haxe.unmarked_sanitize _
      · cases found
  rw [enumMember] at given
  split at given
  · split at given
    · obtain ⟨text, found, finish⟩ := bind_eq_ok.mp given
      cases finish
      exact named found
    · cases given
  · obtain ⟨text, found, finish⟩ := bind_eq_ok.mp given
    cases finish
    exact named found

theorem unmarked_enumMembers {trees : List (TypeScript.Tree α)}
    (given : trees.mapM enumMember = .ok members) : ∀ member ∈ members, Unmarked member.name := by
  intro member listed
  obtain ⟨tree, _, found⟩ := exists_of_mapM given member listed
  exact unmarked_enumMember found

theorem balanced_stringMembers
    (named : ∀ member ∈ members, Unmarked member.name)
    (given : stringMembers members = .ok values) : ∀ value ∈ values, BalancedValue value := by
  induction members generalizing values with
  | nil =>
    cases given
    simp
  | cons member rest rest_balanced =>
    rw [stringMembers] at given
    split at given
    · obtain ⟨others, behind, finish⟩ := bind_eq_ok.mp given
      cases finish
      exact forall_mem_cons.mpr ⟨⟨named member (.head _), Haxe.balanced_quote _⟩,
        rest_balanced (fun other listed => named other (.tail _ listed)) behind⟩
    · cases given

theorem balanced_numberMembers {next : Number.Binary64}
    (named : ∀ member ∈ members, Unmarked member.name)
    (given : numberMembers next members = .ok values) : ∀ value ∈ values, BalancedValue value := by
  induction members generalizing next values with
  | nil =>
    cases given
    simp
  | cons member rest rest_balanced =>
    have counted (value : Number.Binary64) (given : (numberMembers value.succ rest >>= fun others =>
          pure ((member.name, valueText value) :: others)) = Except.ok values) :
        ∀ value ∈ values, BalancedValue value := by
      obtain ⟨others, behind, finish⟩ := bind_eq_ok.mp given
      cases finish
      exact forall_mem_cons.mpr
        ⟨⟨named member (.head _), (unmarked_valueText value).balanced⟩,
          rest_balanced (fun other listed => named other (.tail _ listed)) behind⟩
    rw [numberMembers] at given
    split at given
    · exact counted next given
    split at given
    · exact counted _ given
    · cases given

theorem balanced_literalMembers (used literals : List String) :
    ∀ value ∈ literalMembers used literals, BalancedValue value := by
  induction literals generalizing used with
  | nil => simp [literalMembers]
  | cons literal rest rest_balanced =>
    have named : Unmarked (Text.freshName (Haxe.moduleName literal) used) :=
      Haxe.unmarked_of_forall Char.isAlphanum (by decide) fun char member =>
        Foreign.isAlphanum_of_mem_freshName (fun _ => Haxe.isAlphanum_of_mem_moduleName) member
    exact forall_mem_cons.mpr ⟨⟨named, Haxe.balanced_quote literal⟩, rest_balanced _⟩

theorem balanced_enumeration {name : String} {trees : List (TypeScript.Tree α)}
    {result : EnumAbstract} (plain : Unmarked name) (given : enumeration name trees = .ok result) :
    BalancedEnum result := by
  obtain ⟨members, found, rest⟩ := bind_eq_ok.mp given
  have named := unmarked_enumMembers found
  split at rest
  · obtain ⟨values, valued, finish⟩ := bind_eq_ok.mp rest
    cases finish
    exact ⟨plain, (by decide : Unmarked "String"), balanced_stringMembers named valued⟩
  · obtain ⟨values, valued, finish⟩ := bind_eq_ok.mp rest
    cases finish
    exact ⟨plain, (by decide : Unmarked "Float"), balanced_numberMembers named valued⟩

end Enumerations

section Pieces

theorem unmarked_visibility (isPublic : Bool) : Unmarked (visibility isPublic) := by
  cases isPublic <;> decide

theorem unmarked_memberFront (member : Part) :
    Unmarked (memberVisibility member ++ " " ++ staticWord member) := by
  have seen : Unmarked (memberVisibility member) := by
    rw [memberVisibility]
    split <;> decide
  have own : Unmarked (staticWord member) := by
    rw [staticWord]
    split <;> decide
  exact (seen.append (by decide)).append own

theorem unmarked_name {kind : String} (only : String) {name : Part}
    (slot : (kind, "name", [only]) ∈ copiedFields) (plain : only ∈ copiedKinds)
    (sound : SoundTree node) (isKind : node.kind = kind)
    (found : node.field? "name" = some name) : Unmarked name.text := by
  have isName := mem_singleton.mp (sound.top.legible.field _ slot isKind name found)
  exact (sound.field found).top.legible.copied (isName ▸ plain)

theorem balanced_fieldTypeSuffix (spelled : view.context.Spelled)
    (sound : SoundTree node) : Balanced (fieldTypeSuffix view node) := by
  rw [fieldTypeSuffix]
  split
  · have type := (sound.field ‹_›).top.type view spelled
    dsimp only
    split
    · exact ((by decide : Balanced ": Null<").append type).append (by decide)
    · exact (by decide : Balanced ": ").append type
  · split <;> decide

structure BalancedMember (member : ClassMember) : Prop where
  fields : ∀ field ∈ member.fields, Balanced field
  functions : ∀ function ∈ member.functions, Balanced function

theorem closed_functionLines (fields : List String) {functions : List String}
    (each : ∀ function ∈ functions, Balanced function) :
    Closed (functionLines fields functions) := by
  have blank : Balanced "" := by decide
  have spaced {function : String} (balanced : Balanced function) :
      Closed [.line "", .line function] :=
    (closed_line blank).append (closed_line balanced)
  cases functions with
  | nil => exact closed_nil
  | cons first rest =>
    rw [functionLines]
    refine Closed.append ?_ ?_
    · split
      · exact closed_line (each first (.head _))
      · exact spaced (each first (.head _))
    · rw [flatMap_def]
      refine .flatten (forall_mem_map.mpr fun function member => ?_)
      exact spaced (each function (.tail _ member))

theorem closed_classBody (hasBase : Bool) {members : List ClassMember}
    (each : ∀ member ∈ members, BalancedMember member) : Closed (classBody hasBase members) := by
  have fields : ∀ field ∈ members.flatMap (·.fields), Balanced field := by
    intro field listed
    obtain ⟨member, inside, own⟩ := mem_flatMap.mp listed
    exact (each member inside).fields field own
  have functions : ∀ function ∈ members.flatMap (·.functions), Balanced function := by
    intro function listed
    obtain ⟨member, inside, own⟩ := mem_flatMap.mp listed
    exact (each member inside).functions function own
  refine (Haxe.Code.closed_lines fields).append (closed_functionLines _ ?_)
  split
  · exact functions
  · exact forall_mem_cons.mpr ⟨by decide, functions⟩

theorem balanced_extended {bases : List String} {header : String} (head : Balanced header)
    (each : ∀ base ∈ bases, Balanced base) :
    Balanced (bases.foldl (fun header base => header ++ " extends " ++ base) header) :=
  foldlRecOn bases _ head fun _ front base member =>
    (front.append (by decide)).append (each base member)

theorem balanced_join {texts : List String} (each : ∀ text ∈ texts, Balanced text) :
    Balanced (String.join texts) :=
  foldlRecOn texts _ (by decide) fun _ front text member => front.append (each text member)

theorem balanced_interfaceBases (spelled : view.context.Spelled) (sound : SoundTree node) :
    Balanced (String.join ((interfaceBases view node).map (· ++ " & "))) := by
  refine balanced_join (forall_mem_map.mpr fun base listed => ?_)
  obtain ⟨part, member, rfl⟩ := mem_map.mp listed
  obtain ⟨clause, inside, own⟩ := mem_flatMap.mp member
  have type := ((sound.named (mem_filter.mp inside).1).named own).top.type view spelled
  exact type.append (by decide)

theorem balanced_spelledAlias (spelled : view.context.Spelled)
    {entry : TypeScript.ExportEntry} {item : String} (given : spelledAlias view entry = .ok item) :
    Balanced item := by
  have named := Haxe.unmarked_sanitize entry.exported
  have bound {path : String} (plain : Unmarked path) :
      Balanced ("final " ++ Haxe.sanitize entry.exported ++ " = " ++ path ++ ";") :=
    (((((by decide : Unmarked "final ").append named).append
      (by decide)).append plain).append (by decide)).balanced
  simp only [spelledAlias] at given
  split at given
  · cases given
    exact bound (spelled.value _ _ (mem_of_spelling? ‹_›))
  · cases given
    exact bound (spelled.whole _ _ (mem_of_spelling? ‹_›))
  · cases given
    exact (((by decide : Unmarked "typedef ").append named).append (by decide)).balanced
  · cases given
  · cases given
  · cases given
    exact bound (Haxe.unmarked_sanitize entry.localName)

end Pieces

end Haxify.Lower
