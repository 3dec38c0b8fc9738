import Haxify.Proofs.BracketsOfTypes
import Haxify.Proofs.Lowering

/-!
# Brackets in patterns and functions

The steps that take a value apart, the parameters and the text of a function are balanced where
the texts are that they are made of.
-/

namespace Haxify.Lower

open List
open Haxe (Balanced Unmarked)
open Haxe.Code (Closed)

variable {value : String} {prelude : List String} {parameters : Parameters}
variable {temp before target name typing mark : String} {reading : Reading} {node : Part}

theorem unmarked_freshTemp (context : Context) : Gives context Unmarked freshTemp := by
  have plain (number : Nat) : Unmarked (tempName number) :=
    Haxe.unmarked_of_isIdentifier (isIdentifier_tempName number)
  rw [freshTemp]
  refine gives_read (gives_next fun state => gives_next fun _ => gives_pure (plain _))

section Patterns

/-- Steps of taking a value apart whose texts are balanced. -/
def BalancedSteps (steps : List BindingStep) : Prop := ∀ step ∈ steps, Balanced step.render

theorem balancedSteps_nil : BalancedSteps [] := by simp [BalancedSteps]

theorem balanced_field_render (plain : Unmarked temp) (key : String) :
    Balanced (Reading.field temp key).render := by
  have front := plain.balanced
  have quoted := Haxe.balanced_quote key
  simp only [Reading.render]
  split
  · exact ((plain.append (by decide)).append (Haxe.unmarked_of_isIdentifier ‹_›)).balanced
  · simp +decide [Haxe.Balanced, front.read_append, quoted.read_append]

/-- An element, and the elements from one on. -/
theorem balanced_indexed_render (plain : Unmarked temp) (index : Nat) :
    Balanced (Reading.element temp index).render ∧ Balanced (Reading.suffix temp index).render := by
  have front := plain.balanced
  have number := (Haxe.unmarked_toString index).balanced
  rw [Reading.render, Reading.render]
  generalize toString index = digits at number ⊢
  constructor <;> simp +decide [Haxe.Balanced, front.read_append, number.read_append]

theorem balanced_fallback_render (plain : Unmarked temp) {default : String}
    (value : Balanced default) : Balanced (Reading.fallback temp default).render := by
  have front := plain.balanced
  simp +decide [Haxe.Balanced, Reading.render, front.read_append, value.read_append]

theorem balanced_set (front : Balanced before) (named : Balanced target)
    (reads : Balanced value) : Balanced (before ++ target ++ " = " ++ value ++ ";") :=
  (((front.append named).append (by decide)).append reads).append (by decide)

theorem balanced_hold (plain : Unmarked temp) (reads : Balanced reading.render) :
    Balanced (BindingStep.hold temp reading).render :=
  balanced_set (by decide) plain.balanced reads

theorem balanced_assign (front : Balanced target) (reads : Balanced reading.render) :
    Balanced (BindingStep.assign target reading).render :=
  ((front.append (by decide)).append reads).append (by decide)

theorem balanced_declare (isConstant : Bool) (name : String) (reads : Balanced reading.render) :
    Balanced (BindingStep.declare isConstant name reading).render := by
  refine balanced_set ?_ (Haxe.unmarked_sanitize name).balanced reads
  cases isConstant <;> decide

theorem BalancedSteps.cons {step : BindingStep} {steps : List BindingStep}
    (first : Balanced step.render) (rest : BalancedSteps steps) : BalancedSteps (step :: steps) :=
  forall_mem_cons.mpr ⟨first, rest⟩

theorem BalancedSteps.append {first second : List BindingStep} (front : BalancedSteps first)
    (behind : BalancedSteps second) : BalancedSteps (first ++ second) :=
  forall_mem_append.mpr ⟨front, behind⟩

theorem balancedSteps_rest {rest : String} (named : Unmarked rest) (plain : Unmarked temp)
    (claimed : List String) : BalancedSteps (.copy rest temp :: claimed.map (.drop rest)) := by
  have front := named.balanced
  have whole := plain.balanced
  refine .cons ?_ (forall_mem_map.mpr fun key _ => ?_)
  · change Balanced ("var " ++ rest ++ " = Reflect.copy(" ++ temp ++ ");")
    simp +decide [Haxe.Balanced, front.read_append, whole.read_append]
  · have quoted := Haxe.balanced_quote key
    change Balanced ("Reflect.deleteField(" ++ rest ++ ", " ++ Haxe.quote key ++ ");")
    simp +decide [Haxe.Balanced, front.read_append, quoted.read_append]

end Patterns

section Functions

structure BalancedParameters (parameters : Parameters) : Prop where
  list : ∀ text ∈ parameters.list, Balanced text
  prelude : ∀ text ∈ parameters.prelude, Balanced text
  named : ∀ property ∈ parameters.properties, Unmarked property.name
  fields : ∀ property ∈ parameters.properties, Balanced property.field

theorem balancedParameters_none : BalancedParameters .none := by
  constructor <;> simp [Parameters.none]

theorem BalancedParameters.append {first second : Parameters} (front : BalancedParameters first)
    (behind : BalancedParameters second) : BalancedParameters (first.append second) where
  list := forall_mem_append.mpr ⟨front.list, behind.list⟩
  prelude := forall_mem_append.mpr ⟨front.prelude, behind.prelude⟩
  named := forall_mem_append.mpr ⟨front.named, behind.named⟩
  fields := forall_mem_append.mpr ⟨front.fields, behind.fields⟩

theorem balanced_foldl_append {each : List Parameters} {done : Parameters}
    (before : BalancedParameters done) (balanced : ∀ one ∈ each, BalancedParameters one) :
    BalancedParameters (each.foldl Parameters.append done) :=
  foldlRecOn each _ before fun _ front one member => front.append (balanced one member)

theorem balanced_defaultLine (plain : Unmarked name) (balanced : Balanced value) :
    Balanced (defaultLine name value) := by
  have front := plain.balanced
  rw [defaultLine]
  simp +decide [Haxe.Balanced, front.read_append, balanced.read_append]

theorem balanced_property? (plain : Unmarked name) (annotated : Balanced typing)
    {property : Property} (found : property? node name typing = some property) :
    property.name = name ∧ Balanced property.field := by
  obtain ⟨access, seen, rfl⟩ := Option.map_eq_some_iff.mp found
  have visible : Unmarked access := by
    rw [propertyAccess?] at seen
    split at seen
    · cases seen
      split <;> decide
    · split at seen
      · cases seen
        decide
      · cases seen
  have typed : Balanced (if typing == "" then ": Dynamic" else typing) := by
    split
    · decide
    · exact annotated
  have keyword : Unmarked (if node.has "readonly" then " final " else " var ") := by
    split <;> decide
  have front := ((visible.append keyword).append plain).balanced
  exact ⟨rfl, (front.append typed).append (by decide)⟩

theorem balanced_namedParameter (optional : Unmarked mark)
    (plain : Unmarked name) (annotated : Balanced typing)
    (lines : ∀ line ∈ prelude, Balanced line) : BalancedParameters
      ⟨[mark ++ name ++ typing], prelude, (property? node name typing).toList⟩ where
  list := forall_mem_singleton.mpr ((optional.append plain).balanced.append annotated)
  prelude := lines
  named property member := by
    rw [(balanced_property? plain annotated (Option.mem_toList.mp member)).1]
    exact plain
  fields property member := (balanced_property? plain annotated (Option.mem_toList.mp member)).2

theorem balanced_singleParameter {text : String} (balanced : Balanced text)
    (lines : ∀ line ∈ prelude, Balanced line) : BalancedParameters ⟨[text], prelude, []⟩ :=
  ⟨forall_mem_singleton.mpr balanced, lines, by simp, by simp⟩

theorem balanced_injectedLines (role : FunctionRole) (balanced : BalancedParameters parameters) :
    ∀ line ∈ injectedLines role parameters, Balanced line := by
  cases role with
  | plain => simp [injectedLines]
  | constructor =>
    refine forall_mem_map.mpr fun property member => Unmarked.balanced ?_
    have named := balanced.named property member
    exact ((((by decide : Unmarked "this.").append named).append (by decide)).append named).append
      (by decide)

theorem balanced_propertyFields (role : FunctionRole) (balanced : BalancedParameters parameters) :
    ∀ field ∈ propertyFields role parameters, Balanced field := by
  cases role with
  | plain => simp [propertyFields]
  | constructor => exact forall_mem_map.mpr balanced.fields

theorem closed_body {injected : List String} {codes : List (List Haxe.Code)} (point : Nat)
    (front : ∀ line ∈ prelude, Balanced line) (between : ∀ line ∈ injected, Balanced line)
    (each : ∀ code ∈ codes, Closed code) :
    Closed (lines prelude ++ (codes.take point).flatten ++ lines injected ++
      (codes.drop point).flatten) := by
  have before : Closed (codes.take point).flatten :=
    .flatten fun code member => each code (mem_of_mem_take member)
  have behind : Closed (codes.drop point).flatten :=
    .flatten fun code member => each code (mem_of_mem_drop member)
  exact (((Haxe.Code.closed_lines front).append before).append
    (Haxe.Code.closed_lines between)).append behind

structure BalancedFunction (function : FunctionText) : Prop where
  text : Balanced function.text
  fields : ∀ field ∈ function.fields, Balanced field

end Functions

end Haxify.Lower
