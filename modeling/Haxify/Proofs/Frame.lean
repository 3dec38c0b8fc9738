import Haxify.Proofs.DisciplineOfStatements

/-!
# What a lowering leaves of the state

Scopes and jump targets are opened around a body and closed behind it. Whatever its
outcome, a rule of the lowering therefore leaves the open jump targets as they were,
leaves all scopes but the innermost as they were and only adds names to that one, and
never goes back to an earlier temporary. The property is a discipline, so every rule has it.
-/

namespace Haxify.Lower

open List

variable {node : Part}
variable {α β : Type}

/-- The scopes that are left when names are only added to the innermost one. -/
inductive ScopesGrown : List (List String) → List (List String) → Prop where
  | outside : ScopesGrown [] []
  /-- Names are added in front of those of the innermost scope. -/
  | inner (added scope : List String) (outer : List (List String)) :
      ScopesGrown (scope :: outer) ((added ++ scope) :: outer)

namespace ScopesGrown

theorem refl (scopes : List (List String)) : ScopesGrown scopes scopes := by
  cases scopes with
  | nil => exact .outside
  | cons scope outer => exact .inner [] scope outer

theorem trans {before between after : List (List String)} (first : ScopesGrown before between)
    (second : ScopesGrown between after) : ScopesGrown before after := by
  cases first with
  | outside => exact second
  | inner added scope outer =>
    cases second with
    | inner more _ _ =>
      rw [← append_assoc]
      exact .inner (more ++ added) scope outer

theorem bindIn (name : String) (scopes : List (List String)) :
    ScopesGrown scopes (bindIn name scopes) := by
  cases scopes with
  | nil => exact .outside
  | cons scope outer => exact .inner [name] scope outer

theorem tail {scope : List String} {outer after : List (List String)}
    (grown : ScopesGrown (scope :: outer) after) : after.tail = outer := by
  cases grown with
  | inner added scope outer => rfl

end ScopesGrown

/-- What a lowering leaves of the state it starts from. -/
structure State.Keeps (before after : State) : Prop where
  jumps : after.jumps = before.jumps
  /-- Names are only added to the innermost scope. -/
  scopes : ScopesGrown before.scopes after.scopes
  /-- No temporary is looked for before the earlier ones. -/
  temps : before.nextTemp ≤ after.nextTemp

namespace State.Keeps

theorem refl (state : State) : State.Keeps state state := ⟨rfl, .refl _, Nat.le_refl _⟩

theorem trans {before between after : State} (first : before.Keeps between)
    (second : between.Keeps after) : before.Keeps after :=
  ⟨second.jumps.trans first.jumps, first.scopes.trans second.scopes,
    Nat.le_trans first.temps second.temps⟩

end State.Keeps

/-- A lowering that keeps the frame of the state, whatever its outcome. -/
def Framed (body : Lowering α) : Prop :=
  ∀ (context : Context) (state : State), state.Keeps (body.evaluate context state).2

/-- What a lowering leaves at some jump targets. Where a function is among them, no name is
added either. -/
structure State.KeepsAt (around : List Jump) (before after : State) : Prop
    extends before.Keeps after where
  still : .function ∈ around → after.scopes = before.scopes

theorem State.KeepsAt.refl (around : List Jump) (state : State) : state.KeepsAt around state :=
  ⟨.refl state, fun _ => rfl⟩

def FramedAt (around : List Jump) (body : Lowering α) : Prop :=
  ∀ (context : Context) (state : State), state.KeepsAt around (body.evaluate context state).2

variable {around inner : List Jump}

theorem FramedAt.framed {body : Lowering α} (kept : FramedAt around body) : Framed body :=
  fun context state => (kept context state).toKeeps

theorem framed_bind {held : α → Prop} {first : Lowering α} {next : α → Lowering β}
    (head : FramedAt around first) (gives : ∀ context, Gives context held first)
    (tail : ∀ value, held value → FramedAt around (next value)) :
    FramedAt around (first >>= next) := by
  intro context state
  have kept := head context state
  rw [Lowering.evaluate_bind]
  cases outcome : first.evaluate context state with
  | mk result between =>
    rw [outcome] at kept
    cases result with
    | ok value =>
      have last := tail value (gives _ _ _ _ outcome) context between
      exact ⟨kept.trans last.toKeeps, fun marked => (last.still marked).trans (kept.still marked)⟩
    | error reason => exact kept

theorem framed_withScope {body : Lowering α} (inside : Framed body) :
    FramedAt around (withScope body) := by
  intro context state
  have kept := inside context { state with scopes := [] :: state.scopes }
  rw [Lowering.evaluate_withScope]
  refine ⟨⟨kept.jumps, ?_, kept.temps⟩, fun _ => kept.scopes.tail⟩
  simp only [kept.scopes.tail]
  exact .refl state.scopes

theorem framed_withJump {body : Lowering α} {jump : Jump}
    (marks : .function ∈ around → .function ∈ inner) (inside : FramedAt inner body) :
    FramedAt around (withJump jump body) := by
  intro context state
  have kept := inside context { state with jumps := jump :: state.jumps }
  rw [Lowering.evaluate_withJump]
  refine ⟨⟨?_, kept.scopes, kept.temps⟩, fun marked => kept.still (marks marked)⟩
  simp only [kept.jumps, tail_cons]

theorem framed_freshTemp : FramedAt around freshTemp := fun context state =>
  ⟨⟨rfl, .refl state.scopes,
    Nat.le_trans (Text.le_leastFree tempName context.takenTemps state.nextTemp) (Nat.le_succ _)⟩,
    fun _ => rfl⟩

def framing : Discipline where
  Allows around holds body := FramedAt around body ∧ ∀ context, Gives context holds body
  Expects _ := True
  Permits _ := True
  foreign _ := true
  legible := False
  value fact := ⟨fun _ state => .refl _ state, fun _ => gives_pure fact⟩
  chain head tail := ⟨framed_bind head.1 head.2 fun value fact => (tail value fact).1,
    fun context => gives_bind (head.2 context) fun value fact => (tail value fact).2 context⟩
  refusal reason := ⟨fun _ state => .refl _ state, fun _ => gives_throw reason⟩
  gives allowed known := ⟨allowed.1, fun context state value after run =>
    ⟨known context state value after run, allowed.2 context state value after run⟩⟩
  names _ each :=
    have each (view : View) := each view (fun _ _ _ _ => rfl) False.elim
    ⟨fun context state => (each ⟨context, state.scopes⟩).1 context state,
      fun context => gives_view fun view _ => (each view).2 context⟩
  surroundings _ each := ⟨fun context => (each context False.elim).1 context,
    fun context => gives_read ((each context False.elim).2 context)⟩
  binding name free := ⟨fun _ state => ⟨⟨rfl, .bindIn name state.scopes, Nat.le_refl _⟩,
    fun marked => absurd marked free⟩, fun _ => gives_of_forall fun _ => trivial⟩
  temporary := ⟨framed_freshTemp, fun _ => gives_of_forall fun _ => trivial⟩
  scope inside :=
    ⟨framed_withScope inside.1.framed, fun context => gives_withScope (inside.2 context)⟩
  jump jump _ inside :=
    ⟨framed_withJump (.tail _) inside.1, fun context => gives_withJump jump (inside.2 context)⟩
  function inside := ⟨framed_withScope (FramedAt.framed (framed_withJump id inside.1)),
    fun context => gives_withScope (gives_withJump _ (inside.2 context))⟩
  leave {_ node} _ := by
    refine ⟨fun context state => ?_, fun _ => gives_of_forall fun _ => trivial⟩
    obtain ⟨result, run⟩ := evaluate_breakStatement node state
    rw [run]
    exact .refl _ state
  restart {_ node} _ _ := by
    refine ⟨fun context state => ?_, fun _ => gives_of_forall fun _ => trivial⟩
    obtain ⟨result, gaps, run⟩ := evaluate_continueStatement node state
    rw [run]
    exact ⟨⟨rfl, .refl state.scopes, Nat.le_refl _⟩, fun _ => rfl⟩
  ordinary _ _ := trivial
  expected := id
  permitted := id

theorem rendered_framed (tree : TypeScript.Node) : framing.Covers (rendered tree) :=
  rendered_covered tree (fun _ _ _ => ⟨not_mem_nil, fun _ _ => trivial⟩) False.elim

theorem framed_expression (accepted : framing.Accepts node) (around : List Jump) :
    FramedAt around node.value.expression :=
  have allowed : framing.Vets around node _ node.value.expression := accepted.expression
  allowed.1

theorem framed_statement (accepted : framing.Accepts node) : Framed node.value.statement :=
  have admitted : framing.Admits ⟨[], node⟩ := ⟨not_mem_nil, fun _ _ => trivial⟩
  (accepted.statement admitted).1.framed

end Haxify.Lower
