import Haxify.Proofs.BracketsOfStatements
import Haxify.Proofs.Sites

/-!
# Disciplines of lowerings

A discipline is a property of lowerings that passes from the primitives to whatever is
composed of them. Every rule of the lowering is composed of primitives, so one walk through
the rules shows that every discipline allows every rule. The modules behind this one take
that walk; what keeps the frame of the state, what depends on interfaces alone, what has a
Haxe form and where jumps lead are disciplines that profit from it.

A discipline speaks of a lowering at the jump targets around it, and of the values that it
gives. A lowering may look at the names in scope and at its context, but it must go on alike
where these agree. What becomes known of a node, once it is lowered, is known of all sites
below it that are written: a rule that passed over one of them would not be allowed. Where the
sources are legible, what a rule writes is known to be balanced.
-/

namespace Haxify.Lower

open List
open Haxe (Balanced Unmarked)
open Haxe.Code (Closed)
open TypeScript (Slot grammar leafKinds slots Token isTypeKind)
open TypeScript.Tree (Covered specialKinds)

variable {detail : String} {node : Part} {other : Site Rendering}

/-- Names may be bound in a mode at some jump targets. -/
def BindingMode.BindsAt (mode : BindingMode) (around : List Jump) : Prop :=
  mode = .assignment ∨ .function ∉ around

/-- A property of lowerings that is closed under the ways to compose them. -/
structure Discipline where
  /-- A lowering is allowed at some jump targets, and its values have a property. -/
  Allows : ∀ {α : Type}, List Jump → (α → Prop) → Lowering α → Prop
  /-- What is taken for granted of the sites in a statement before it is lowered. -/
  Expects : Site Rendering → Prop
  /-- What is known of the written sites in a node that is lowered. -/
  Permits : Site Rendering → Prop
  /-- The names that may stand for modules. -/
  foreign : String → Bool
  /-- Whether what is copied from the sources has no brackets and quotes. -/
  legible : Prop
  value : ∀ {α : Type} {around : List Jump} {holds : α → Prop} {value : α},
    holds value → Allows around holds (pure value)
  chain : ∀ {α β : Type} {around : List Jump} {held : α → Prop} {holds : β → Prop}
    {first : Lowering α} {next : α → Lowering β}, Allows around held first →
    (∀ value, held value → Allows around holds (next value)) → Allows around holds (first >>= next)
  refusal : ∀ {α : Type} {around : List Jump} {holds : α → Prop} (reason : Unsupported),
    Allows around holds (throw reason : Lowering α)
  /-- What a lowering gives in every context is known of its values. -/
  gives : ∀ {α : Type} {around : List Jump} {held known : α → Prop} {body : Lowering α},
    Allows around held body → (∀ context, Gives context known body) →
      Allows around (fun value => known value ∧ held value) body
  names : ∀ {α : Type} {around : List Jump} {holds : α → Prop} {next : View → Lowering α},
    (∀ first second, first.Agrees second → next first = next second) →
    (∀ view : View, (∀ name member path, view.moduleMember name member = .ok (some path) →
      foreign name) → (legible → view.context.Spelled) → Allows around holds (next view)) →
    Allows around holds (view >>= next)
  surroundings : ∀ {α : Type} {around : List Jump} {holds : α → Prop}
    {next : Context → Lowering α},
    (∀ first second, first.Agrees second → next first = next second) →
      (∀ context, (legible → context.Spelled) → Allows around holds (next context)) →
        Allows around holds (read >>= next)
  /-- Names are bound where no function is among the targets. An expression may have one among
  them and still be allowed, so it binds none. -/
  binding : ∀ {around : List Jump} (name : String), .function ∉ around →
    Allows around (fun _ => True) (bindLocal name)
  temporary : ∀ {around : List Jump}, Allows around (fun _ => True) freshTemp
  scope : ∀ {α : Type} {around : List Jump} {holds : α → Prop} {body : Lowering α},
    Allows around holds body → Allows around holds (withScope body)
  jump : ∀ {α : Type} {around : List Jump} {holds : α → Prop} {body : Lowering α} (jump : Jump),
    jump ≠ .function → Allows (jump :: around) holds body → Allows around holds (withJump jump body)
  function : ∀ {α : Type} {around : List Jump} {holds : α → Prop} {body : Lowering α},
    Allows [] holds body → Allows around holds (withScope (withJump .function body))
  leave : ∀ {around : List Jump} {node : Part}, node.kind = "break_statement" →
    Allows around (fun _ => Permits ⟨around, node⟩) (breakStatement node)
  restart : ∀ {around : List Jump} {node : Part}, node.kind = "continue_statement" →
    Expects ⟨around, node⟩ →
      Allows around (fun _ => Permits ⟨around, node⟩) (continueStatement node)
  /-- Nothing is asked of nodes that have a Haxe form and are no jumps. -/
  ordinary : ∀ {around : List Jump} {node : Part}, node.isUnlowerable = false →
    node.kind ∉ ["break_statement", "continue_statement"] → Permits ⟨around, node⟩
  expected : ∀ {around : List Jump} {token : Token} {value other : Rendering}
    {children : List Part}, Expects ⟨around, .node token value children⟩ →
      Expects ⟨around, .node token other children⟩
  permitted : ∀ {around : List Jump} {token : Token} {value other : Rendering}
    {children : List Part}, Permits ⟨around, .node token value children⟩ →
      Permits ⟨around, .node token other children⟩

variable {α β : Type} {law : Discipline} {around : List Jump}

section Rules

variable {holds : α → Prop}

theorem allowed_pure {value : α} (fact : holds value) :
    law.Allows around holds (pure value) := law.value fact

theorem allowed_bind {held : α → Prop} {holds : β → Prop} {first : Lowering α}
    {next : α → Lowering β} (head : law.Allows around held first)
    (tail : ∀ value, held value → law.Allows around holds (next value)) :
    law.Allows around holds (first >>= next) := law.chain head tail

theorem allowed_imp {held : α → Prop} {body : Lowering α}
    (allowed : law.Allows around held body) (implies : ∀ value, held value → holds value) :
    law.Allows around holds body := by
  rw [← bind_pure body]
  exact allowed_bind allowed fun value fact => allowed_pure (implies value fact)

theorem allowed_refusal {tree : TypeScript.Tree β} :
    law.Allows around holds (unsupported tree detail : Lowering α) := law.refusal _

theorem allowed_unsupportedToken {token : Token} :
    law.Allows around holds (unsupportedToken token detail : Lowering α) := law.refusal _

theorem allowed_guard {condition : Prop} [Decidable condition] {tree : TypeScript.Tree β}
    {body : Lowering α} (rest : ¬condition → law.Allows around holds body) :
    law.Allows around holds (if condition then unsupported tree detail else body) := by
  split
  · exact allowed_refusal
  · exact rest ‹_›

theorem allowed_view {next : View → Lowering α}
    (same : ∀ {first second}, first.Agrees second → next first = next second)
    (each : ∀ view : View, (law.legible → view.context.Spelled) →
      law.Allows around holds (next view)) :
    law.Allows around holds (view >>= next) := law.names (fun _ _ => same) fun view _ => each view

theorem allowed_freshTemp : law.Allows around Unmarked freshTemp :=
  allowed_imp (law.gives law.temporary unmarked_freshTemp) fun _ => And.left

theorem allowed_forEach {relates : α → β → Prop} {items : List α} {body : α → Lowering β}
    (each : ∀ item ∈ items, law.Allows around (relates item) (body item)) :
    law.Allows around (Forall₂ relates items) (forEach items body) := by
  induction items with
  | nil => exact allowed_pure .nil
  | cons item rest rest_allowed =>
    refine allowed_bind (each item (.head _)) fun result fact => ?_
    have others := rest_allowed fun other member => each other (.tail _ member)
    exact allowed_bind others fun results facts => allowed_pure (.cons fact facts)

end Rules

namespace Discipline

/-- All sites in a statement are as they are taken for granted, and names may be bound there. -/
def Admits (law : Discipline) (site : Site Rendering) : Prop :=
  .function ∉ site.around ∧ ∀ other, site.Contains Site.inner other → law.Expects other

/-- All written sites are as they are known once their nodes are lowered. Nothing is known of
punctuation. -/
def Settles (law : Discipline) (site : Site Rendering) : Prop :=
  site.node.isNamed → ∀ other, site.Contains (Site.lowered law.foreign) other → law.Permits other

/-- All written sites in a node are as they are known, whatever is around the node. -/
def Settled (law : Discipline) (node : Part) : Prop :=
  ∀ around, law.Settles ⟨around, node⟩

/-- A lowering that is allowed, makes well-formed values of legible sources, and gives something
only if something is known. -/
abbrev Makes (law : Discipline) (around : List Jump) (formed : α → Prop) (known : Prop)
    (body : Lowering α) : Prop :=
  law.Allows around (fun value => (law.legible → formed value) ∧ known) body

/-- A lowering that gives something only if a node is settled. -/
abbrev Vets (law : Discipline) (around : List Jump) (node : Part) (formed : α → Prop)
    (body : Lowering α) : Prop :=
  law.Makes around formed (law.Settled node) body

/-- A lowering that gives something only if several nodes are settled. -/
abbrev VetsAll (law : Discipline) (around : List Jump) (parts : List Part) (formed : α → Prop)
    (body : Lowering α) : Prop :=
  law.Makes around formed (∀ part ∈ parts, law.Settled part) body

/-- A lowering that gives something only if a statement is settled where it stands. -/
abbrev Tracks (law : Discipline) (around : List Jump) (node : Part) (formed : α → Prop)
    (body : Lowering α) : Prop :=
  law.Makes around formed (law.Settles ⟨around, node⟩) body

/-- A node each of whose renderings is allowed and gives something only if the node is settled,
and which reads the same as a type in views that agree. Of legible sources, they are balanced. -/
structure Accepts (law : Discipline) (node : Part) : Prop where
  type : node.value.Typed
  sound : law.legible → Sound node
  expression : ∀ {around : List Jump}, law.Vets around node Balanced node.value.expression
  statement : ∀ {around : List Jump}, law.Admits ⟨around, node⟩ →
    law.Tracks around node Closed node.value.statement
  /-- As what follows the first branch of a conditional. -/
  alternative : ∀ {around : List Jump}, law.Admits ⟨around, node⟩ →
    law.Tracks around node ClosesBranch node.value.alternative
  unpack : ∀ {around : List Jump} {mode : BindingMode} {temp : String}, mode.BindsAt around →
    (law.legible → Unmarked temp) → law.Vets around node BalancedSteps (node.value.unpack mode temp)
  /-- The statements in a function are as they are taken for granted. -/
  function : node.kind ∈ callableKinds → law.Admits ⟨[], node⟩

abbrev Covers (law : Discipline) (node : Part) : Prop := node.Throughout law.Accepts

theorem Covers.typed (covered : law.Covers node) : node.Every Rendering.Typed :=
  fun part below => (covered part below).type

theorem Covers.sound (covered : law.Covers node) (legible : law.legible) :
    SoundTree node := fun part below => (covered part below).sound legible

end Discipline

section Making

variable {formed : β → Prop} {held known : Prop} {body : Lowering β}

theorem makes_imp (made : law.Makes around formed held body) (implies : held → known) :
    law.Makes around formed known body :=
  allowed_imp made fun _ both => ⟨both.1, implies both.2⟩

theorem makes_pure {value : β} (text : law.legible → formed value) (fact : known) :
    law.Makes around formed known (pure value) := allowed_pure ⟨text, fact⟩

theorem makes_bind {formed : α → Prop} {first : Lowering β} {next : β → Lowering α}
    {made : β → Prop} (head : law.Makes around made held first)
    (tail : ∀ value, (law.legible → made value) → held →
      law.Makes around formed known (next value)) :
    law.Makes around formed known (first >>= next) :=
  allowed_bind head fun value both => tail value both.1 both.2

theorem makes_map {formed : α → Prop} {first : Lowering β} {give : β → α} {made : β → Prop}
    (head : law.Makes around made held first)
    (shapes : ∀ {value}, law.legible → made value → formed (give value)) (implies : held → known) :
    law.Makes around formed known (first >>= fun value => pure (give value)) :=
  makes_bind head fun _ text fact =>
    makes_pure (fun legible => shapes legible (text legible)) (implies fact)

theorem allowed_each {holds : α → Prop} {items : List α} {body : α → Lowering β}
    (each : ∀ item ∈ items, law.Makes around formed (holds item) (body item)) :
    law.Makes around (fun results => ∀ result ∈ results, formed result) (∀ item ∈ items, holds item)
      (forEach items body) := by
  refine allowed_imp (allowed_forEach each) fun results related => ?_
  induction related with
  | nil => simp
  | cons fact _ facts =>
    obtain ⟨texts, known⟩ := facts fun item member => each item (.tail _ member)
    exact ⟨fun legible => forall_mem_cons.mpr ⟨fact.1 legible, texts legible⟩,
      forall_mem_cons.mpr ⟨fact.2, known⟩⟩

end Making

section Sites

variable {part : Part} {site : Site Rendering} {kind : String}

theorem function_not_mem_inner (free : .function ∉ site.around)
    (member : other ∈ site.inner) : .function ∉ other.around := by
  obtain ⟨part, _, member⟩ := mem_flatMap.mp member
  have here : .function ∉ (site.part part).around := by
    have each : ∀ entry ∈ bodyTargets, .function ≠ entry.2 := by decide
    simp only [Site.part]
    split
    · exact not_mem_nil
    split
    · rw [mem_append, not_or, Option.mem_toList]
      exact ⟨fun found => each _ (mem_of_lookup found) rfl, free⟩
    · exact free
  rcases mem_cons.mp member with rfl | passed
  · exact here
  · split at passed
    · obtain ⟨_, _, rfl⟩ := mem_map.mp passed
      exact here
    · cases passed

theorem admits_of_mem_inner (admitted : law.Admits site)
    (member : other ∈ site.inner) : law.Admits other :=
  ⟨function_not_mem_inner admitted.1 member, fun further below =>
    admitted.2 further (.head member below)⟩

theorem admits_part (admitted : law.Admits ⟨around, node⟩) (member : part ∈ node.children) :
    law.Admits (Site.part ⟨around, node⟩ part) :=
  admits_of_mem_inner admitted (mem_inner around member)

theorem admits_plain (plain : node.kind ∉ shiftingKinds) (admitted : law.Admits ⟨around, node⟩)
    (member : part ∈ node.children) : law.Admits ⟨around, part⟩ :=
  part_plain plain ▸ admits_part admitted member

theorem settles_of_permits (permits : law.Permits ⟨around, node⟩)
    (parts : ∀ part ∈ loweredParts law.foreign node, law.Settles (Site.part ⟨around, node⟩ part)) :
    law.Settles ⟨around, node⟩ := by
  intro isNamed other contained
  rcases contained.cases_head with rfl | ⟨next, member, rest⟩
  · exact permits
  · obtain ⟨part, listed, rfl⟩ := mem_map.mp member
    obtain ⟨written, named⟩ := mem_filter.mp listed
    exact parts part written named other rest

theorem settles_of_parts (lowerable : node.isUnlowerable = false)
    (plain : node.kind ∉ ["break_statement", "continue_statement"])
    (parts : ∀ part ∈ loweredParts law.foreign node, law.Settles (Site.part ⟨around, node⟩ part)) :
    law.Settles ⟨around, node⟩ :=
  settles_of_permits (law.ordinary lowerable plain) parts

/-- The kinds of nodes that may have no Haxe form, have parts that are not written, or jump. -/
def exceptionalKinds : List String :=
  ["break_statement", "continue_statement"] ++ specialKinds

theorem settles_of_slots (plain : node.kind ∉ exceptionalKinds)
    (covered : Covered (fun part => law.Settles (Site.part ⟨around, node⟩ part)) node
      (slots node.kind)) : law.Settles ⟨around, node⟩ := by
  rw [exceptionalKinds, mem_append, not_or] at plain
  exact settles_of_parts (isUnlowerable_of_plain plain.2) plain.1 fun part member =>
    covered.all part (mem_slots_of_mem_loweredParts plain.2 member)

theorem slots_of_mem_grammar :
    ∀ entry ∈ grammar, slots entry.1 = entry.2 ∧ entry.1 ∉ exceptionalKinds := by decide +kernel

theorem settles_of_covered (row : List Slot) (same : node.kind = kind)
    (listed : (kind, row) ∈ grammar)
    (covered : Covered (fun part => law.Settles (Site.part ⟨around, node⟩ part)) node row) :
    law.Settles ⟨around, node⟩ := by
  obtain ⟨slots, plain⟩ := slots_of_mem_grammar _ listed
  refine settles_of_slots (same ▸ plain) ?_
  rw [same, slots]
  exact covered

theorem settles_of_plain (row : List Slot) (same : node.kind = kind)
    (listed : (kind, row) ∈ grammar) (plain : kind ∉ shiftingKinds)
    (covered : Covered (fun part => law.Settles ⟨around, part⟩) node row) :
    law.Settles ⟨around, node⟩ :=
  settles_of_covered row same listed
    (covered.imp fun _ settles => (part_plain (same ▸ plain)).symm ▸ settles)

theorem settled_of_covered (row : List Slot) (same : node.kind = kind)
    (listed : (kind, row) ∈ grammar) (covered : Covered law.Settled node row) : law.Settled node :=
  fun _ => settles_of_covered row same listed (covered.imp fun _ settled => settled _)

/-- The kinds of nodes that hold no code and do not jump. -/
def quietKinds : List String := leafKinds.filter (!exceptionalKinds.contains ·)

theorem settled_of_quiet (quiet : node.kind ∈ quietKinds) : law.Settled node := by
  have each : ∀ kind ∈ quietKinds, slots kind = [] ∧ kind ∉ exceptionalKinds := by decide +kernel
  obtain ⟨none, plain⟩ := each _ quiet
  exact fun _ => settles_of_slots plain (none ▸ .nil)

theorem settled_of_isTypeKind (isType : isTypeKind node.kind) : law.Settled node := by
  have noTypes : ∀ kind ∈ exceptionalKinds, isTypeKind kind = false := by decide +kernel
  have plain : node.kind ∉ exceptionalKinds := fun special => by
    rw [noTypes _ special] at isType
    cases isType
  have none : slots node.kind = [] := by rw [slots, if_pos (by simp [isType])]
  exact fun _ => settles_of_slots plain (none ▸ .nil)

theorem settled_of_not_isNamed (plain : node.isNamed = false) : law.Settled node :=
  fun _ isNamed => absurd (plain.symm.trans isNamed) Bool.false_ne_true

end Sites

section Jumps

theorem breakStatement_eq_ok {context : Context} {state after : State}
    {code : List Haxe.Code} :
    (breakStatement node).evaluate context state = (.ok code, after) ↔
      node.field? "label" = none ∧ (∃ isCounting, leftBy state.jumps = some (.loop isCounting)) ∧
        [.line "break;"] = code ∧ state = after := by
  rw [breakStatement]
  split
  · rename_i labeled
    obtain ⟨label, found⟩ := Option.isSome_iff_exists.mp labeled
    simp [found]
  · rename_i plain
    have noLabel : node.field? "label" = none := by simpa using plain
    rw [Lowering.evaluate_bind, Lowering.evaluate_get]
    dsimp only [State.frame]
    split
    · simp [*]
    · rename_i jump noSwitch left
      cases jump with
      | loop isCounting => simp [*]
      | switch => exact absurd rfl noSwitch
      | function =>
        rw [leftBy.eq_def] at left
        split at left
        · cases left
        split at left
        · cases left
        · simp_all
    · simp [*]

theorem evaluate_breakStatement (node : Part) (state : State) : ∃ result,
    ∀ context, (breakStatement node).evaluate context state = (result, state) := by
  rw [breakStatement]
  split
  · exact ⟨_, fun _ => rfl⟩
  simp only [Lowering.evaluate_bind, Lowering.evaluate_get]
  split
  all_goals exact ⟨_, fun _ => rfl⟩

theorem evaluate_continueStatement (node : Part) (state : State) : ∃ result gaps, ∀ context,
    (continueStatement node).evaluate context state =
      (result, { state with gaps := state.gaps ++ gaps }) := by
  have unchanged : { state with gaps := state.gaps ++ [] } = state := by simp
  rw [continueStatement]
  split
  · exact ⟨_, [], fun _ => by rw [unchanged]; rfl⟩
  simp only [Lowering.evaluate_bind, Lowering.evaluate_get]
  split
  · exact ⟨_, [node.token.position], fun _ => rfl⟩
  · exact ⟨_, [], fun _ => by rw [unchanged]; rfl⟩

end Jumps

end Haxify.Lower
