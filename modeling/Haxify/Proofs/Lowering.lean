import Haxify.Lower.Monad

/-!
# Runs of a lowering

What each primitive of a lowering does to a context and a state, and how a run of a
composed lowering splits into the runs of its parts. Later proofs take runs apart with
these statements and never open the transformers below them.
-/

namespace Haxify.Lower

variable {α β : Type} {context : Context} {state after : State} {holds : α → Prop}
variable {body first : Lowering α} {next : α → Lowering β} {value : α} {detail : String}

namespace Lowering

@[simp] theorem evaluate_pure (value : α) :
    (pure value : Lowering α).evaluate context state = (.ok value, state) := rfl

theorem evaluate_bind (first : Lowering α) (next : α → Lowering β) :
    (first >>= next).evaluate context state =
      match first.evaluate context state with
      | (.ok value, between) => (next value).evaluate context between
      | (.error reason, between) => (.error reason, between) := by
  simp only [evaluate, bind, ReaderT.bind, ExceptT.bind, ExceptT.mk, StateT.bind, State.behind]
  obtain ⟨⟨result, between⟩, gaps⟩ := first context state.frame
  cases result with
  | ok value => simp [ExceptT.bindCont, State.frame]
  | error reason =>
    have same : gaps ++ [] = gaps := List.append_nil gaps
    exact congrArg (fun found => (_, State.behind state ((_, between), found))) same

theorem bind_eq_ok {value : β} :
    (first >>= next).evaluate context state = (.ok value, after) ↔
      ∃ middle between, first.evaluate context state = (.ok middle, between) ∧
        (next middle).evaluate context between = (.ok value, after) := by
  rw [evaluate_bind]
  constructor
  · intro run
    cases outcome : first.evaluate context state with
    | mk result between =>
      rw [outcome] at run
      cases result with
      | ok middle => exact ⟨middle, between, rfl, run⟩
      | error reason => simp at run
  · rintro ⟨middle, between, outcome, run⟩
    rw [outcome]
    exact run

theorem pure_eq_ok {given : α} :
    (pure given : Lowering α).evaluate context state = (.ok value, after) ↔
      given = value ∧ state = after := by
  simp

@[simp] theorem evaluate_unsupportedToken (token : TypeScript.Token) (detail : String) :
    (unsupportedToken token detail : Lowering α).evaluate context state =
      (.error ⟨token.kind, token.position, detail⟩, state) := rfl

@[simp] theorem evaluate_unsupported (tree : TypeScript.Tree β) (detail : String) :
    (unsupported tree detail : Lowering α).evaluate context state =
      (.error ⟨tree.token.kind, tree.token.position, detail⟩, state) := rfl

@[simp] theorem evaluate_get :
    (get : Lowering Frame).evaluate context state = (.ok state.frame, state) := rfl

theorem evaluate_withScope (body : Lowering α) :
    (withScope body).evaluate context state =
      let run := body.evaluate context { state with scopes := [] :: state.scopes }
      (run.1, { run.2 with scopes := run.2.scopes.tail }) := rfl

theorem evaluate_withJump (jump : Jump) (body : Lowering α) :
    (withJump jump body).evaluate context state =
      let run := body.evaluate context { state with jumps := jump :: state.jumps }
      (run.1, { run.2 with jumps := run.2.jumps.tail }) := rfl

theorem tidied_eq_ok (tidy : State → State) {run : Except Unsupported α × State} :
    (run.1, tidy run.2) = (.ok value, after) ↔
      ∃ inside, run = (.ok value, inside) ∧ after = tidy inside := by
  obtain ⟨result, inside⟩ := run
  simp only [Prod.mk.injEq]
  constructor
  · rintro ⟨rfl, rfl⟩
    exact ⟨inside, ⟨rfl, rfl⟩, rfl⟩
  · rintro ⟨_, ⟨rfl, rfl⟩, rfl⟩
    exact ⟨rfl, rfl⟩

theorem withScope_eq_ok :
    (withScope body).evaluate context state = (.ok value, after) ↔
      ∃ inside, body.evaluate context { state with scopes := [] :: state.scopes } =
          (.ok value, inside) ∧ after = { inside with scopes := inside.scopes.tail } := by
  rw [evaluate_withScope]
  exact tidied_eq_ok fun inside => { inside with scopes := inside.scopes.tail }

theorem withJump_eq_ok {jump : Jump} :
    (withJump jump body).evaluate context state = (.ok value, after) ↔
      ∃ inside, body.evaluate context { state with jumps := jump :: state.jumps } =
          (.ok value, inside) ∧ after = { inside with jumps := inside.jumps.tail } := by
  rw [evaluate_withJump]
  exact tidied_eq_ok fun inside => { inside with jumps := inside.jumps.tail }

end Lowering

open Lowering

theorem map_eq_ok {make : α → β} {value : β} :
    (body >>= fun given => pure (make given)).evaluate context state = (.ok value, after) ↔
      ∃ given, body.evaluate context state = (.ok given, after) ∧ make given = value := by
  rw [bind_eq_ok]
  constructor
  · rintro ⟨given, between, run, ended⟩
    obtain ⟨same, rfl⟩ := pure_eq_ok.mp ended
    exact ⟨given, run, same⟩
  · rintro ⟨given, run, rfl⟩
    exact ⟨given, after, run, rfl⟩

theorem forEach_cons_eq_ok {item : α} {rest : List α} {body : α → Lowering β}
    {results : List β} :
    (forEach (item :: rest) body).evaluate context state = (.ok results, after) ↔
      ∃ result between others, (body item).evaluate context state = (.ok result, between) ∧
        (forEach rest body).evaluate context between = (.ok others, after) ∧
        results = result :: others := by
  rw [forEach, bind_eq_ok]
  constructor
  · rintro ⟨result, between, first, run⟩
    obtain ⟨others, last, second, finish⟩ := bind_eq_ok.mp run
    obtain ⟨rfl, rfl⟩ := pure_eq_ok.mp finish
    exact ⟨result, between, others, first, second, rfl⟩
  · rintro ⟨result, between, others, first, second, rfl⟩
    exact ⟨result, between, first, bind_eq_ok.mpr ⟨others, after, second, rfl⟩⟩

/-- A property of every value that a lowering gives. -/
def Gives (context : Context) (holds : α → Prop) (body : Lowering α) : Prop :=
  ∀ (state : State) (value : α) (after : State),
    body.evaluate context state = (.ok value, after) → holds value

theorem gives_pure (fact : holds value) : Gives context holds (pure value) := by
  intro state given after run
  obtain ⟨rfl, _⟩ := pure_eq_ok.mp run
  exact fact

theorem gives_unsupportedToken {token : TypeScript.Token} :
    Gives context holds (unsupportedToken token detail : Lowering α) := by
  intro state given after run
  simp at run

theorem gives_throw (reason : Unsupported) : Gives context holds (throw reason : Lowering α) := by
  intro state given after run
  cases run

theorem gives_refusal {tree : TypeScript.Tree β} :
    Gives context holds (unsupported tree detail : Lowering α) :=
  gives_unsupportedToken

theorem gives_guard {condition : Prop} [Decidable condition] {tree : TypeScript.Tree β}
    (rest : ¬condition → Gives context holds body) :
    Gives context holds (if condition then unsupported tree detail else body) := by
  split
  · exact gives_refusal
  · exact rest ‹_›

theorem gives_bind {held : α → Prop} {holds : β → Prop} (head : Gives context held first)
    (tail : ∀ value, held value → Gives context holds (next value)) :
    Gives context holds (first >>= next) := by
  intro state value after run
  obtain ⟨middle, between, before, behind⟩ := bind_eq_ok.mp run
  exact tail middle (head _ _ _ before) _ _ _ behind

theorem gives_next {holds : β → Prop}
    (tail : ∀ value, Gives context holds (next value)) : Gives context holds (first >>= next) :=
  have anything : Gives context (fun _ => True) first := fun _ _ _ _ => trivial
  gives_bind anything fun value _ => tail value

theorem gives_withScope (inside : Gives context holds body) :
    Gives context holds (withScope body) := by
  intro state value after run
  obtain ⟨_, run, _⟩ := withScope_eq_ok.mp run
  exact inside _ _ _ run

theorem gives_withJump (jump : Jump)
    (inside : Gives context holds body) : Gives context holds (withJump jump body) := by
  intro state value after run
  obtain ⟨_, run, _⟩ := withJump_eq_ok.mp run
  exact inside _ _ _ run

theorem gives_of_forall (fact : ∀ value, holds value) :
    Gives context holds body := fun _ value _ _ => fact value

theorem gives_view {holds : β → Prop} {next : View → Lowering β}
    (tail : ∀ view : View, view.context = context → Gives context holds (next view)) :
    Gives context holds (view >>= next) := by
  intro state value after run
  obtain ⟨seen, between, look, behind⟩ := bind_eq_ok.mp run
  cases look
  exact tail _ rfl _ _ _ behind

theorem gives_read {holds : β → Prop} {next : Context → Lowering β}
    (tail : Gives context holds (next context)) : Gives context holds (read >>= next) := by
  intro state value after run
  obtain ⟨seen, between, look, behind⟩ := bind_eq_ok.mp run
  cases look
  exact tail _ _ _ behind

theorem gives_each {items : List α} {body : α → Lowering β}
    (each : ∀ item ∈ items, Gives context (fun _ => holds item) (body item)) :
    Gives context (fun _ => ∀ item ∈ items, holds item) (forEach items body) := by
  induction items with
  | nil => exact gives_pure (by simp)
  | cons item rest rest_gives =>
    refine gives_bind (each item (.head _)) fun result fact => ?_
    have others := rest_gives fun other member => each other (.tail _ member)
    exact gives_bind others fun results facts => gives_pure (by simpa using ⟨fact, facts⟩)

end Haxify.Lower
