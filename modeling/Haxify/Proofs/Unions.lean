import Haxify.Lower.Declaration
import Haxify.Proofs.Registry
import Haxify.Proofs.SwitchLowering
import Mathlib.Data.List.Induction

/-!
# Unions

The arms of a union are its leaves from left to right, however its nodes are nested. Main
statements: the type of a union is the chain of what its arms read as, without repeats, and a
union of string literals becomes an enum abstract with one member for each of them.
-/

namespace Haxify.Lower

open List
open Haxe (isIdentifier moduleName Code)
open TypeScript (Tree Node)

variable {node value : Part} {arms others : List Part} {view : View}

section Arms

/-- The leaves of a union in order. What is no union is a leaf. -/
inductive Arms : Part → List Part → Prop where
  | leaf {node : Part} (plain : node.kind ≠ "union_type") : Arms node [node]
  | union {node : Part} {groups : List (List Part)} (isUnion : node.kind = "union_type")
      (each : Forall₂ Arms node.named groups) : Arms node groups.flatten

theorem flattenAll_eq (parts : List Part) : Tree.flattenAll "union_type" parts =
    (((parts.filter (·.kind != "comment")).filter (·.isNamed)).map
      (Tree.flatten "union_type")).flatten := by
  induction parts with
  | nil => rfl
  | cons part rest rest_eq =>
    rw [Tree.flattenAll, rest_eq, filter_filter, filter_filter, filter_cons]
    split <;> simp

theorem flatten_of_isUnion (isUnion : node.kind = "union_type") : node.flatten "union_type" =
    (node.named.map (Tree.flatten "union_type")).flatten := by
  rw [Tree.flatten_eq, if_pos (by simpa using isUnion), flattenAll_eq]
  rfl

theorem arms_flatten (node : Part) : Arms node (node.flatten "union_type") := by
  induction node using Tree.tree_induction with
  | node token value children below =>
    by_cases isUnion : (TypeScript.Tree.node token value children).kind = "union_type"
    · rw [flatten_of_isUnion isUnion]
      refine .union isUnion (forall₂_map_right_iff.mpr (forall₂_same.mpr ?_))
      exact fun arm member => below arm (Tree.mem_children_of_mem_named member)
    · rw [Tree.flatten_eq, if_neg (by simpa using isUnion)]
      exact .leaf isUnion

theorem eq_map_of_forall₂ {α β : Type} {relates : α → β → Prop} {f : α → β} {items : List α}
    {results : List β} (related : Forall₂ relates items results)
    (each : ∀ item ∈ items, ∀ result, relates item result → result = f item) :
    results = items.map f := by
  induction related with
  | nil => rfl
  | cons first _ rest_eq =>
    rw [map_cons, each _ (.head _) _ first, rest_eq fun item member => each item (.tail _ member)]

theorem Arms.eq (given : Arms node arms) : arms = node.flatten "union_type" := by
  induction node using Tree.tree_induction generalizing arms with
  | node token value children below =>
    cases given with
    | leaf plain => rw [Tree.flatten_eq, if_neg (by simpa using plain)]
    | union isUnion each =>
      rw [flatten_of_isUnion isUnion, eq_map_of_forall₂ each fun arm member _ =>
        below arm (Tree.mem_children_of_mem_named member)]

end Arms

section Firsts

variable {α : Type}

/-- Items without those that occurred before. -/
inductive Firsts : List α → List α → Prop where
  | nil : Firsts [] []
  | new {all kept : List α} {item : α} (before : Firsts all kept) (fresh : item ∉ all) :
      Firsts (all ++ [item]) (kept ++ [item])
  | again {all kept : List α} {item : α} (before : Firsts all kept) (known : item ∈ all) :
      Firsts (all ++ [item]) kept

theorem firsts_eraseDups [DecidableEq α] (all : List α) : Firsts all all.eraseDups := by
  induction all using List.reverseRecOn with
  | nil => exact .nil
  | append_singleton all item before =>
    rw [eraseDups_append]
    by_cases known : item ∈ all
    · simpa [List.removeAll, known] using Firsts.again before known
    · simpa [List.removeAll, known, eraseDups_cons] using Firsts.new before known

theorem eraseDups_again [DecidableEq α] {before : List α} {item : α} (known : item ∈ before)
    (behind : List α) : (before ++ item :: behind).eraseDups = (before ++ behind).eraseDups := by
  simp [eraseDups_append, List.removeAll, known]

end Firsts

section Types

/-- The chain of alternatives, nested to the right. -/
inductive EitherChain : List String → String → Prop where
  | none : EitherChain [] "Dynamic"
  | one (type : String) : EitherChain [type] type
  | more {rest : List String} {chain : String} (first : String) (some : rest ≠ [])
      (behind : EitherChain rest chain) :
      EitherChain (first :: rest) ("haxe.extern.EitherType<" ++ first ++ ", " ++ chain ++ ">")

theorem eitherChain_eitherType (types : List String) : EitherChain types (eitherType types) := by
  fun_induction eitherType types with
  | case1 => exact .none
  | case2 only => exact .one only
  | case3 first rest some behind => exact .more first (fun empty => some empty) behind

/-- What the arms that stand for values read as. -/
def typesIn (view : View) (arms : List Part) : List String :=
  (arms.filter (!isNullish ·)).map fun arm => arm.value.type view

/-- Arms that read alike. -/
structure ReadsAlike (view : View) (arm other : Part) : Prop where
  nullish : isNullish other = isNullish arm
  type : other.value.type view = arm.value.type view

/-- Arms that are repeated, and arms for no value that are moved. -/
inductive Rearranged (view : View) : List Part → List Part → Prop where
  | alike {arms others : List Part} (each : Forall₂ (ReadsAlike view) arms others) :
      Rearranged view arms others
  | repeated {arm copy : Part} (before between behind : List Part)
      (alike : ReadsAlike view arm copy) :
      Rearranged view (before ++ arm :: between ++ behind)
        (before ++ arm :: between ++ copy :: behind)
  | moved {arm : Part} (before between behind : List Part) (nullish : isNullish arm) :
      Rearranged view (before ++ arm :: between ++ behind) (before ++ between ++ arm :: behind)
  | back {arms others : List Part} (there : Rearranged view arms others) :
      Rearranged view others arms
  | onward {arms between others : List Part} (first : Rearranged view arms between)
      (second : Rearranged view between others) : Rearranged view arms others

theorem Rearranged.same (rearranged : Rearranged view arms others) :
    others.any isNullish = arms.any isNullish ∧
      (typesIn view others).eraseDups = (typesIn view arms).eraseDups := by
  induction rearranged with
  | @alike arms others each =>
    have same : others.any isNullish = arms.any isNullish ∧
        typesIn view others = typesIn view arms := by
      induction each with
      | nil => exact ⟨rfl, rfl⟩
      | @cons arm _ _ _ alike _ rest_same =>
        cases nullish : isNullish arm <;> simp_all [typesIn, alike.nullish, alike.type]
    exact ⟨same.1, congrArg List.eraseDups same.2⟩
  | @repeated arm copy before between behind alike =>
    cases nullish : isNullish arm with
    | true => simp [typesIn, alike.nullish, nullish]
    | false =>
      have known : arm.value.type view ∈ typesIn view (before ++ arm :: between) := by
        simp [typesIn, nullish]
      have again := eraseDups_again known (typesIn view behind)
      simpa [typesIn, alike.nullish, alike.type, nullish] using again
  | moved before between behind nullish => simp [typesIn, nullish]
  | back _ same => exact ⟨same.1.symm, same.2.symm⟩
  | onward _ _ first second => exact ⟨second.1.trans first.1, second.2.trans first.2⟩

theorem unionType_eq (given : Arms node arms) : unionType node view =
    let base := eitherType (typesIn view arms).eraseDups
    if (∃ arm ∈ arms, isNullish arm) ∧ base ≠ "Dynamic" then "Null<" ++ base ++ ">" else base := by
  simp only [unionType, unionOf, ← given.eq, ← any_eq_true, Bool.and_eq_true, bne_iff_ne]
  rfl

/-- The type of a union is the chain of what its arms read as without repeats, and may be null if
one of them stands for no value. It stays the same in whatever way arms are nested, arms are
repeated, or arms for no value are moved. -/
theorem union_is_chain_of_arms (node : Part) (view : View) : ∃ arms kept chain, Arms node arms ∧
    Firsts ((arms.filter (!isNullish ·)).map fun arm => arm.value.type view) kept ∧
    EitherChain kept chain ∧
    unionType node view = (if (∃ arm ∈ arms, isNullish arm) ∧ chain ≠ "Dynamic"
      then "Null<" ++ chain ++ ">" else chain) ∧
    ∀ other others, Arms other others → Rearranged view arms others →
      unionType other view = unionType node view := by
  have given := arms_flatten node
  refine ⟨_, _, _, given, firsts_eraseDups _, eitherChain_eitherType _, unionType_eq given, ?_⟩
  intro other others otherArms rearranged
  obtain ⟨nullish, types⟩ := rearranged.same
  simp only [unionType_eq otherArms, unionType_eq given, types, ← any_eq_true, nullish]

end Types

section Literals

variable {name : Part} {literal : String} {literals used : List String}

theorem isIdentifier_freshName (literal : String) (used : List String) :
    isIdentifier (Text.freshName (moduleName literal) used) := by
  obtain ⟨first, rest, spelled, upper⟩ := Haxe.exists_isUpper_moduleName literal
  have words : ∀ char ∈ (Text.freshName (moduleName literal) used).toList, char.isAlphanum :=
    fun _ => Foreign.isAlphanum_of_mem_freshName fun _ => Haxe.isAlphanum_of_mem_moduleName
  have front : ∃ more, (Text.freshName (moduleName literal) used).toList = first :: more := by
    rw [Text.freshName]
    split
    · exact ⟨_, by rw [String.toList_append, spelled, cons_append]⟩
    · exact ⟨rest, spelled⟩
  obtain ⟨more, same⟩ := front
  exact Haxe.isIdentifier_of_isUpper same upper words

/-- An arm that is the type of one string. -/
def IsLiteral (arm : Part) (literal : String) : Prop :=
  arm.kind = "literal_type" ∧ ∃ inner, arm.first? = some inner ∧ inner.kind = "string" ∧
    TypeScript.decodeLiteral inner.text = literal

theorem literalArm?_eq_some {arm : Part} :
    literalArm? arm = some literal ↔ IsLiteral arm literal := by
  simp only [literalArm?, IsLiteral, Option.map_eq_some_iff, Option.filter_eq_some_iff,
    Bool.and_eq_true, beq_iff_eq]
  tauto

theorem mapM_literalArm? (each : Forall₂ IsLiteral arms literals) :
    arms.mapM literalArm? = some literals := by
  induction each with
  | nil => rfl
  | cons first _ rest_all => simp [mapM_cons, literalArm?_eq_some.mpr first, rest_all]

theorem exists_literals {found : List String} (all : arms.mapM literalArm? = some found) :
    ∀ arm ∈ arms, ∃ literal, IsLiteral arm literal := by
  induction arms generalizing found with
  | nil => simp
  | cons arm rest rest_found =>
    simp only [mapM_cons, Option.bind_eq_bind, Option.bind_eq_some_iff] at all
    obtain ⟨literal, first, others, behind, _⟩ := all
    exact forall_mem_cons.mpr ⟨⟨literal, literalArm?_eq_some.mp first⟩, rest_found behind⟩

theorem literalUnion?_eq_some (isUnion : value.kind = "union_type") (given : Arms value arms)
    (each : Forall₂ IsLiteral arms literals) :
    literalUnion? value = some literals.eraseDups := by
  simp [literalUnion?, isUnion, ← given.eq, mapM_literalArm? each]

theorem literalUnion?_eq_none (given : Arms value arms)
    (other : ∃ arm ∈ arms, ∀ literal, ¬IsLiteral arm literal) : literalUnion? value = none := by
  obtain ⟨arm, member, other⟩ := other
  have missing : arms.mapM literalArm? = none := by
    refine Option.eq_none_iff_forall_ne_some.mpr fun found all => ?_
    obtain ⟨literal, isLiteral⟩ := exists_literals all arm member
    exact other literal isLiteral
  simp [literalUnion?, ← given.eq, missing]

theorem literalMembers_eq (used literals : List String) : ∃ names : List String,
    names.length = literals.length ∧ names.Nodup ∧ (∀ name ∈ names, isIdentifier name) ∧
    (∀ name ∈ names, name ∉ used) ∧ literalMembers used literals =
      List.zipWith (fun name literal => (name, Haxe.quote literal)) names literals := by
  induction literals generalizing used with
  | nil => exact ⟨[], by simp [literalMembers]⟩
  | cons literal rest rest_names =>
    let name := Text.freshName (moduleName literal) used
    obtain ⟨names, length, nodup, legal, fresh, same⟩ := rest_names (name :: used)
    simp only [mem_cons, not_or] at fresh
    refine ⟨name :: names, congrArg (· + 1) length, ?_, ?_, ?_, congrArg _ same⟩
    · exact nodup_cons.mpr ⟨fun member => (fresh name member).1 rfl, nodup⟩
    · exact forall_mem_cons.mpr ⟨isIdentifier_freshName literal used, legal⟩
    · exact forall_mem_cons.mpr
        ⟨Text.freshName_not_mem _ _, fun other member => (fresh other member).2⟩

theorem evaluate_enumAbstract (visible name type : String) (members : List (String × String))
    (context : Context) (state : State) :
    (codeText (EnumAbstract.code ⟨name, type, members⟩ visible)).evaluate context state =
      (.ok (Code.render context.indent (Code.block (visible ++ "enum abstract " ++ name ++
          ("(" ++ type ++ ") from " ++ type ++ " to " ++ type))
        (members.map fun member =>
          .line ("var " ++ member.1 ++ " = " ++ member.2 ++ ";")))), state) := by
  simp only [EnumAbstract.code, String.append_assoc]
  rfl

/-- A union of string literals becomes an enum abstract with one member for each literal, in the
order in which they first occur. The names of the members are identifiers and differ. With any
other arm, the alias becomes a typedef. -/
theorem literal_union_is_enumerated (foundName : node.field? "name" = some name)
    (foundValue : node.field? "value" = some value) (isUnion : value.kind = "union_type")
    (given : Arms value arms) (isPublic : Bool) (context : Context) (state : State) :
    (∀ literals, Forall₂ IsLiteral arms literals → ∃ kept names, Firsts literals kept ∧
      names.length = kept.length ∧ names.Nodup ∧ (∀ name ∈ names, isIdentifier name) ∧
      (aliasDeclaration node isPublic).evaluate context state =
        (.ok (Code.render context.indent (Code.block
          (visibility isPublic ++ "enum abstract " ++ name.text ++ "(String) from String to String")
          (List.zipWith (fun name literal =>
            .line ("var " ++ name ++ " = " ++ Haxe.quote literal ++ ";")) names kept))), state)) ∧
    ((∃ arm ∈ arms, ∀ literal, ¬IsLiteral arm literal) →
      (aliasDeclaration node isPublic).evaluate context state =
        (.ok (visibility isPublic ++ "typedef " ++ name.text ++
          typeParameters ⟨context, state.scopes⟩ (node.field? "type_parameters") ++ " = " ++
          value.value.type ⟨context, state.scopes⟩ ++ ";"), state)) := by
  refine ⟨fun literals each => ?_, fun other => ?_⟩
  · obtain ⟨names, length, nodup, legal, _, same⟩ := literalMembers_eq [] literals.eraseDups
    refine ⟨_, names, firsts_eraseDups literals, length, nodup, legal, ?_⟩
    simp only [aliasDeclaration, foundName, foundValue, literalUnion?_eq_some isUnion given each,
      evaluate_enumAbstract, literalEnum, same, map_zipWith]
    rfl
  · simp only [aliasDeclaration, foundName, foundValue, literalUnion?_eq_none given other]
    rfl

end Literals

namespace Sample

def literalType (text : String) : Node :=
  Sample.node "literal_type" "" text [Sample.node "string" "" text []]

def sizes : Node :=
  Sample.node "type_alias_declaration" "" "" [Sample.node "type_identifier" "name" "Size" [],
    Sample.node "union_type" "value" "" [
      Sample.node "union_type" "" "" [literalType "'a-b'", literalType "'a_b'"],
      literalType "\"a-b\""]]

end Sample

open Sample

/-- Of three literals in two unions, one is repeated and two are spelled alike. -/
theorem sizes_are_enumerated : ∃ kept names : List String, Firsts ["a-b", "a_b", "a-b"] kept ∧
    names.length = kept.length ∧ names.Nodup ∧
    ∃ text, (aliasDeclaration (rendered sizes) true).evaluate (around sizes)
      .initial = (.ok text, .initial) := by
  have literal {text literal : String} (decoded : TypeScript.decodeLiteral text = literal) :
      IsLiteral (rendered (Sample.literalType text)) literal := ⟨rfl, _, rfl, rfl, decoded⟩
  have named : (rendered sizes).field? "name" = some _ := rfl
  obtain ⟨kept, names, firsts, length, nodup, _, run⟩ := (literal_union_is_enumerated named rfl rfl
    (arms_flatten _) true (around sizes) .initial).1 ["a-b", "a_b", "a-b"]
      (.cons (literal (by decide +kernel)) (.cons (literal (by decide +kernel))
        (.cons (literal (by decide +kernel)) .nil)))
  exact ⟨kept, names, firsts, length, nodup, _, run⟩

end Haxify.Lower
