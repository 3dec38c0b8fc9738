import Haxify.Proofs.Renaming
import Mathlib.Logic.Function.Basic

/-!
# What it means to take a value apart

A pattern binds its names one after another to what it finds in a value. That meaning is
defined here by recursion on the pattern, and beside it the meaning of the steps that a
pattern is lowered to, which keep what they have found in temporaries. Expressions stay
abstract: they may look at the names in use, change them and change the world around them.
Steps follow a pattern if both do the same to the names and to the world, or both fail there.
-/

namespace Haxify.Destructuring

open Lower List
open Haxe (sanitize)

variable {number : Nat}

/-- A value: null, an object by its fields or an array by its elements. -/
inductive Value where
  | null
  | object (fields : List (String × Value))
  | array (elements : List Value)

namespace Value

def field? (key : String) : Value → Option Value
  | .null => none
  | .object fields => some ((fields.lookup key).getD .null)
  | .array _ => some .null

def element? (index : Nat) : Value → Option Value
  | .null => none
  | .object _ => some .null
  | .array elements => some (elements[index]?.getD .null)

def suffix? (index : Nat) : Value → Option Value
  | .null => none
  | .object _ => some (.array [])
  | .array elements => some (.array (elements.drop index))

def without? (keys : List String) : Value → Option Value
  | .null => none
  | .object fields => some (.object (fields.filter fun field => !keys.contains field.1))
  | .array elements => some (.array elements)

theorem without?_cons (key : String) (keys : List String) (value : Value) :
    value.without? (key :: keys) = (value.without? [key]).bind (without? keys) := by
  cases value with
  | null => rfl
  | array elements => rfl
  | object fields =>
    simp only [without?, Option.bind_some, filter_filter, Option.some.injEq, object.injEq]
    refine filter_congr fun field _ => ?_
    simp [Bool.and_comm]

end Value

/-- What a pattern looks for in a value. -/
inductive Source where
  | field (key : String)
  /-- All fields but those of the keys claimed already. -/
  | others (claimed : List String)
  | element (index : Nat)
  | suffix (index : Nat)

/-- What a source finds in a value, if the value can be read. What Haxe reaches by reflection
may be null there where the value is null. -/
def Source.read? (lenient : Bool) (value : Value) : Source → Option Value
  | .field key =>
    if lenient && !Haxe.isIdentifier key then some ((value.field? key).getD .null)
    else value.field? key
  | .others claimed =>
    if lenient then some ((value.without? claimed).getD .null) else value.without? claimed
  | .element index => value.element? index
  | .suffix index => value.suffix? index

mutual

/-- What a value is bound to: a name, or the targets of its parts in order. -/
inductive Pattern where
  | name (name : String)
  | parts (parts : List Portion)

/-- A part of a value, the default that stands in for null, and what the part is bound to. -/
inductive Portion where
  | mk (source : Source) (default? : Option String) (target : Pattern)

end

mutual

/-- The names that a pattern binds. -/
def Pattern.names : Pattern → List String
  | .name name => [name]
  | .parts parts => namesOf parts

/-- The names that parts of a value are bound to. -/
def namesOf : List Portion → List String
  | [] => []
  | ⟨_, _, target⟩ :: others => target.names ++ namesOf others

end

/-- The values of names or of variables. -/
abbrev Scope := String → Value

/-- What a run comes to: where it ends, or where it fails. -/
abbrev Run (World : Type) := Except (Scope × World) (Scope × World)

/-- A variable gets a value. -/
def assign {World : Type} (slot : String) (value : Value) (now : Scope × World) : Run World :=
  .ok (Function.update now.1 slot value, now.2)

/-- Goes on with what is read, or with the default where that is null. -/
def take {World : Type} (evaluate : String → Scope × World → Value × (Scope × World))
    (target : Value → Scope × World → Run World) (default? : Option String)
    (read? : Option Value) (now : Scope × World) : Run World :=
  match read?, default? with
  | none, _ => .error now
  | some .null, some expression =>
    target (evaluate expression now).1 (evaluate expression now).2
  | some value, _ => target value now

/-- The names in use while a pattern is taken apart, and what expressions mean there. -/
structure Setting (context : Context) (World : Type) where
  /-- The names that a pattern or an expression may use. -/
  names : List String
  distinct : ∀ first ∈ names, ∀ second ∈ names, sanitize first = sanitize second → first = second
  /-- None of them is spelled like a temporary that may be taken. -/
  apart : ∀ name ∈ names, ∀ number,
    sanitize name = tempName number → tempName number ∈ context.takenTemps
  /-- The value of an expression, and what it makes of the names and of the world. -/
  meaning : String → Scope → World → Value × (Scope × World)
  /-- Whether reflection reads null as null. Otherwise it fails there. -/
  lenient : Bool

variable {context : Context} {World : Type}

namespace Setting

variable (setting : Setting context World)

/-- The names that an expression can see. -/
def visible (scope : Scope) : Scope := fun name =>
  if name ∈ setting.names then scope name else .null

/-- The variables after their names have got new values. -/
def written (names slots : Scope) : Scope := fun slot =>
  match setting.names.find? (sanitize · == slot) with
  | some name => names name
  | none => slots slot

def evaluate (expression : String) (now : Scope × World) : Value × (Scope × World) :=
  setting.meaning expression (setting.visible now.1) now.2

/-- Evaluates an expression where the variables of the names have values. -/
def execute (expression : String) (now : Scope × World) : Value × (Scope × World) :=
  let given := setting.meaning expression (setting.visible (now.1 ∘ sanitize)) now.2
  (given.1, setting.written given.2.1 now.1, given.2.2)

end Setting

mutual

/-- Binds the names of a pattern to what it finds in a value. -/
def Pattern.bind (setting : Setting context World) : Pattern → Value → Scope × World → Run World
  | .name name, value, now => assign name value now
  | .parts parts, value, now => bindAll setting parts value now

def bindAll (setting : Setting context World) :
    List Portion → Value → Scope × World → Run World
  | [], _, now => .ok now
  | ⟨source, default?, target⟩ :: others, value, now =>
    (take setting.evaluate (target.bind setting) default?
      (source.read? setting.lenient value) now).bind (bindAll setting others value)

end

def readingTemp : Reading → String
  | .whole temp | .field temp _ | .element temp _ | .suffix temp _ | .fallback temp _ => temp

def readingOf (lenient : Bool) (value : Value) : Reading → Option Value
  | .field _ key => (Source.field key).read? lenient value
  | .element _ index => value.element? index
  | .suffix _ index => value.suffix? index
  | .whole _ | .fallback _ _ => some value

def readingDefault? : Reading → Option String
  | .fallback _ default => some default
  | _ => none

/-- A variable gets what is read, or the default. -/
def store (setting : Setting context World) (slot : String) (reading : Reading)
    (now : Scope × World) : Run World :=
  take setting.execute (assign slot) (readingDefault? reading)
    (readingOf setting.lenient (now.1 (readingTemp reading)) reading) now

/-- What a step does. A copy is an object without no fields. -/
def perform (setting : Setting context World) (now : Scope × World) : BindingStep → Run World
  | .evaluate temp expression =>
    assign temp (setting.execute expression now).1 (setting.execute expression now).2
  | .hold temp reading => store setting temp reading now
  | .fill temp default => store setting temp (.fallback temp default) now
  | .copy temp whole =>
    take setting.execute (assign temp) none
      ((Source.others []).read? setting.lenient (now.1 whole)) now
  | .drop temp key => assign temp (((now.1 temp).without? [key]).getD .null) now
  | .declare _ name reading => store setting (sanitize name) reading now
  | .assign target reading => store setting target reading now

/-- Steps in order, up to one that fails. -/
def performAll (setting : Setting context World) : List BindingStep → Scope × World → Run World
  | [], now => .ok now
  | step :: steps, now => (perform setting now step).bind (performAll setting steps)

/-- What is read, in Haxe. -/
inductive Reads : String → Reading → Prop
  | whole (temp : String) : Reads temp (.whole temp)
  | field (temp : String) {key : String} (plain : Haxe.isIdentifier key) :
      Reads (temp ++ "." ++ key) (.field temp key)
  | reflected (temp : String) {key : String} (other : ¬Haxe.isIdentifier key) :
      Reads ("Reflect.field(" ++ temp ++ ", " ++ Haxe.quote key ++ ")") (.field temp key)
  | element (temp : String) (index : Nat) :
      Reads (temp ++ "[" ++ toString index ++ "]") (.element temp index)
  | suffix (temp : String) (index : Nat) :
      Reads (temp ++ ".slice(" ++ toString index ++ ")") (.suffix temp index)
  | fallback (temp default : String) :
      Reads ("(" ++ temp ++ " == null ? " ++ default ++ " : " ++ temp ++ ")")
        (.fallback temp default)

/-- A line of Haxe is the statement that does a step. -/
inductive Spells : Haxe.Code → BindingStep → Prop
  | evaluate (temp expression : String) :
      Spells (.line ("var " ++ temp ++ " = " ++ expression ++ ";")) (.evaluate temp expression)
  | hold (temp : String) {text : String} {reading : Reading} (reads : Reads text reading) :
      Spells (.line ("var " ++ temp ++ " = " ++ text ++ ";")) (.hold temp reading)
  | fill {temp default text : String} (reads : Reads text (.fallback temp default)) :
      Spells (.line (temp ++ " = " ++ text ++ ";")) (.fill temp default)
  | copy (temp whole : String) :
      Spells (.line ("var " ++ temp ++ " = Reflect.copy(" ++ whole ++ ");")) (.copy temp whole)
  | drop (temp key : String) :
      Spells (.line ("Reflect.deleteField(" ++ temp ++ ", " ++ Haxe.quote key ++ ");"))
        (.drop temp key)
  | declare (name : String) {text : String} {reading : Reading} (reads : Reads text reading) :
      Spells (.line ("var " ++ sanitize name ++ " = " ++ text ++ ";")) (.declare false name reading)
  | constant (name : String) {text : String} {reading : Reading} (reads : Reads text reading) :
      Spells (.line ("final " ++ sanitize name ++ " = " ++ text ++ ";"))
        (.declare true name reading)
  | assign (target : String) {text : String} {reading : Reading} (reads : Reads text reading) :
      Spells (.line (target ++ " = " ++ text ++ ";")) (.assign target reading)

theorem reads_render (reading : Reading) : Reads reading.render reading := by
  cases reading with
  | whole temp => exact .whole temp
  | field temp key =>
    rw [Reading.render]
    split
    · exact .field temp ‹_›
    · exact .reflected temp ‹_›
  | element temp index => exact .element temp index
  | suffix temp index => exact .suffix temp index
  | fallback temp default => exact .fallback temp default

theorem spells_render (step : BindingStep) : Spells (.line step.render) step := by
  unfold BindingStep.render
  cases step with
  | evaluate temp expression => exact .evaluate temp expression
  | hold temp reading => exact .hold temp (reads_render reading)
  | fill temp default => exact .fill (reads_render _)
  | copy temp whole => exact .copy temp whole
  | drop temp key => exact .drop temp key
  | declare isConstant name reading =>
    cases isConstant with
    | false => exact .declare name (reads_render reading)
    | true => exact .constant name (reads_render reading)
  | assign target reading => exact .assign target (reads_render reading)

theorem spells_stepLines (steps : List BindingStep) : Forall₂ Spells (stepLines steps) steps := by
  rw [stepLines, lines, map_map, forall₂_map_left_iff]
  exact forall₂_same.mpr fun step _ => spells_render step

def stepReads : BindingStep → List String
  | .evaluate _ _ => []
  | .hold _ reading | .declare _ _ reading | .assign _ reading => [readingTemp reading]
  | .fill temp _ | .drop temp _ | .copy _ temp => [temp]

def stepDeclares : BindingStep → List String
  | .evaluate temp _ | .hold temp _ | .copy temp _ => [temp]
  | _ => []

/-- The names of the source that a step declares. -/
def stepNames : BindingStep → List String
  | .declare _ name _ => [name]
  | _ => []

/-- Each temporary that steps read is declared before, and none is declared twice. -/
def Declared (known : List String) : List BindingStep → Prop
  | [] => True
  | step :: others =>
    (∀ temp ∈ stepReads step, temp ∈ known) ∧ (∀ temp ∈ stepDeclares step, temp ∉ known) ∧
      Declared (stepDeclares step ++ known) others

/-- Variables hold what the names of the source do. -/
def Setting.Same (setting : Setting context World) (names slots : Scope) : Prop :=
  ∀ name ∈ setting.names, names name = slots (sanitize name)

/-- A run of steps follows one of a pattern: both end or both fail, with the same names in the
same world. Where they end, the temporaries below a number are as before. -/
inductive Follows (setting : Setting context World) (keep : Nat) (before : Scope) :
    Run World → Run World → Prop where
  | fails {names slots : Scope} {world : World} (same : setting.Same names slots) :
      Follows setting keep before (.error (names, world)) (.error (slots, world))
  | ends {names slots : Scope} {world : World} (same : setting.Same names slots)
      (kept : ∀ number < keep, tempName number ∉ context.takenTemps →
        slots (tempName number) = before (tempName number)) :
      Follows setting keep before (.ok (names, world)) (.ok (slots, world))

section Following

variable {setting : Setting context World} {names slots before : Scope} {world : World}
  {keep : Nat}

theorem same_written (setting : Setting context World) (names slots : Scope) :
    setting.Same names (setting.written names slots) := by
  intro name listed
  rw [Setting.written]
  cases found : setting.names.find? (sanitize · == sanitize name) with
  | none => exact absurd (BEq.rfl) (find?_eq_none.mp found name listed)
  | some other =>
    have alike : sanitize other = sanitize name := by simpa using find?_some found
    rw [setting.distinct other (mem_of_find?_eq_some found) name listed alike]

theorem written_tempName (free : tempName number ∉ context.takenTemps) :
    setting.written names slots (tempName number) = slots (tempName number) := by
  rw [Setting.written]
  cases found : setting.names.find? (sanitize · == tempName number) with
  | none => rfl
  | some name =>
    have alike : sanitize name = tempName number := by simpa using find?_some found
    exact absurd (setting.apart name (mem_of_find?_eq_some found) number alike) free

variable (same : setting.Same names slots)
include same

theorem Setting.Same.temporary (free : tempName number ∉ context.takenTemps) (value : Value) :
    setting.Same names (Function.update slots (tempName number) value) := by
  intro name listed
  have other : sanitize name ≠ tempName number :=
    fun alike => free (setting.apart name listed number alike)
  rw [Function.update_of_ne other, same name listed]

theorem Setting.Same.name {name : String} (listed : name ∈ setting.names) (value : Value) :
    setting.Same (Function.update names name value)
      (Function.update slots (sanitize name) value) := by
  intro other otherListed
  by_cases isName : other = name
  · rw [isName, Function.update_self, Function.update_self]
  · have apart : sanitize other ≠ sanitize name :=
      fun alike => isName (setting.distinct other otherListed name listed alike)
    rw [Function.update_of_ne isName, Function.update_of_ne apart, same other otherListed]

theorem Setting.Same.execute (expression : String) (world : World) :
    ∃ value names' world',
      setting.evaluate expression (names, world) = (value, names', world') ∧
      setting.execute expression (slots, world) =
        (value, setting.written names' slots, world') := by
  have view : setting.visible (slots ∘ sanitize) = setting.visible names := by
    funext name
    simp only [Setting.visible, Function.comp_apply]
    split
    · rename_i listed
      exact (same name listed).symm
    · rfl
  refine ⟨_, _, _, rfl, ?_⟩
  rw [Setting.execute, view]

omit same in
theorem Follows.mono {more : Nat} {between : Scope} {first second : Run World}
    (follows : Follows setting more between first second) (fewer : keep ≤ more)
    (kept : ∀ number < keep, tempName number ∉ context.takenTemps →
      between (tempName number) = before (tempName number)) :
    Follows setting keep before first second := by
  cases follows with
  | fails same => exact .fails same
  | ends same later =>
    refine .ends same fun number below free => ?_
    rw [later number (Nat.lt_of_lt_of_le below fewer) free, kept number below free]

omit same in
theorem Follows.bind {more : Nat} {first second : Run World}
    {onward follow : Scope × World → Run World}
    (follows : Follows setting keep before first second) (fewer : keep ≤ more)
    (next : ∀ names slots world, setting.Same names slots →
      (∀ number < keep, tempName number ∉ context.takenTemps →
        slots (tempName number) = before (tempName number)) →
      Follows setting more slots (onward (names, world)) (follow (slots, world))) :
    Follows setting keep before (first.bind onward) (second.bind follow) := by
  cases follows with
  | fails same => exact .fails same
  | ends same kept => exact (next _ _ _ same kept).mono fewer kept

theorem Follows.take {target follow : Value → Scope × World → Run World} {default? : Option String}
    {read? : Option Value}
    (next : ∀ value names' slots' world', setting.Same names' slots' →
      (∀ number, tempName number ∉ context.takenTemps →
        slots' (tempName number) = slots (tempName number)) →
      Follows setting keep slots (target value (names', world')) (follow value (slots', world'))) :
    Follows setting keep slots
      (take setting.evaluate target default? read? (names, world))
      (take setting.execute follow default? read? (slots, world)) := by
  unfold Destructuring.take
  split
  · exact .fails same
  · rename_i expression
    obtain ⟨value, names', world', evaluated, executed⟩ := same.execute expression world
    rw [evaluated, executed]
    exact next value names' _ world' (same_written setting names' slots)
      fun number free => written_tempName free
  · exact next _ names slots world same fun _ _ => rfl

omit same

theorem take_bind (evaluate : String → Scope × World → Value × (Scope × World))
    (target : Value → Scope × World → Run World) (default? : Option String)
    (read? : Option Value) (now : Scope × World) (onward : Scope × World → Run World) :
    (take evaluate target default? read? now).bind onward =
      take evaluate (fun value next => (target value next).bind onward) default? read? now := by
  unfold take
  split <;> rfl

theorem performAll_append (first second : List BindingStep) (now : Scope × World) :
    performAll setting (first ++ second) now =
      (performAll setting first now).bind (performAll setting second) := by
  induction first generalizing now with
  | nil => rfl
  | cons step steps onward =>
    rw [cons_append, performAll, performAll]
    cases perform setting now step with
    | error failed => rfl
    | ok next => exact onward next

end Following

end Haxify.Destructuring
