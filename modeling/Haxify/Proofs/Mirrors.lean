import Haxify.Proofs.Builtins
import Haxify.Proofs.ScopingInOrder

/-!
# Runs that mirror each other

A foreign name is imported under another name, and the old name stays as that of a type alone.
Where the old name is a value that no scope binds, the copy of a tree has the new name. A lowering
of the copy mirrors one of the tree if, from any state, it gives what that gives and leaves the
state alike. The relation passes from the primitives to whatever is composed of them, and it says
whether the old name is bound before and after.
-/

namespace Haxify.Lower

open Lowering List
open TypeScript (Node Token Tree)
open TypeScript.Scope

variable {token : Token} {tree : Node}
variable {α β γ δ : Type} {rename : Rename}

/-- A new name for a foreign import, besides the old one. -/
structure Rename where
  old : String
  new : String
  spelling : Spelling

namespace Rename

/-- The context in which the old name is imported as a type only, and the new name as the old
one was. -/
def extend (rename : Rename) (context : Context) : Context :=
  { context with
    spellings := (rename.new, rename.spelling) :: (rename.old, .foreignType) :: context.spellings }

/-- What a renaming in a context is for: an imported name that no table spells differently. -/
structure Fits (rename : Rename) (context : Context) : Prop where
  imported : context.spellings.lookup rename.old = some rename.spelling
  old : rename.old ∉ "undefined" :: globalValues
  new : rename.new ∉ "undefined" :: globalValues
  distinct : rename.new ≠ rename.old

/-- A node that a renaming can pass over: it is not called by the new name, and it is no type behind
the old one, if that stands for a file of the project. -/
structure Spares {α : Type} (rename : Rename) (node : TypeScript.Tree α) : Prop where
  unused : node.text ≠ rename.new
  owner : ∀ owner ∈ node.field? "module", owner.text = rename.old → rename.spelling.project? = none

/-- The name of a value in the copy. -/
def name (rename : Rename) (bound : Bool) (name : String) : String :=
  if !bound && name == rename.old then rename.new else name

/-- A state within a scope, in which the new name is not bound and the old one is or is not. -/
structure Holds (rename : Rename) (bound : Bool) (state : State) : Prop where
  inside : state.scopes ≠ []
  old : state.scopes.any (·.contains rename.old) = bound
  new : state.scopes.any (·.contains rename.new) = false

end Rename

/-- A renaming and a context that it fits. -/
structure Swap extends Rename where
  context : Context
  fits : toRename.Fits context

variable {swap : Swap}

namespace Swap

/-- The context of the copy. -/
def extended (swap : Swap) : Context := swap.extend swap.context

/-- What is known about names at one place of a tree and its copy. -/
structure Views (swap : Swap) (bound : Bool) (first second : View) :
    Prop where
  source : first.context = swap.context
  copy : second.context = swap.extended
  scopes : second.scopes = first.scopes
  old : first.isLocal swap.old = bound
  new : first.isLocal swap.new = false

end Swap

namespace Swap.Views

variable {bound : Bool} {first second : View} {name : String}
variable (views : swap.Views bound first second)
include views

theorem isLocal_eq (name : String) : second.isLocal name = first.isLocal name := by
  rw [View.isLocal, views.scopes, View.isLocal]

theorem isLocal_name (name : String) :
    second.isLocal (swap.name bound name) = first.isLocal name := by
  rw [views.isLocal_eq, Rename.name]
  split
  · rename_i free
    simp only [Bool.and_eq_true, Bool.not_eq_true', beq_iff_eq] at free
    rw [free.2, views.old, views.new, free.1]
  · rfl

theorem spelling?_of_ne (notOld : name ≠ swap.old) (notNew : name ≠ swap.new) :
    second.spelling? name = first.spelling? name := by
  have looked : swap.extended.spellings.lookup name = swap.context.spellings.lookup name := by
    have apart : (name == swap.old) = false ∧ (name == swap.new) = false := by
      simpa using ⟨notOld, notNew⟩
    simp only [Swap.extended, Rename.extend, lookup_cons, apart.1, apart.2]
  rw [View.spelling?, views.isLocal_eq, views.copy, looked, View.spelling?, views.source]

theorem spelling?_name (notNew : name ≠ swap.new) :
    second.spelling? (swap.name bound name) = first.spelling? name := by
  by_cases isOld : name = swap.old
  · rw [isOld, Rename.name, View.spelling?, View.spelling?, views.old, views.isLocal_eq]
    cases bound with
    | true => simp [views.old]
    | false =>
      have looked : swap.extended.spellings.lookup swap.new = some swap.spelling := by
        simp [Swap.extended, Rename.extend]
      simp [views.new, views.source, views.copy, looked, swap.fits.imported]
  · have same : swap.name bound name = name := by simp [Rename.name, isOld]
    rw [same, views.spelling?_of_ne isOld notNew]

theorem name_of_spelling?_eq_none (plain : first.spelling? name = none) :
    swap.name bound name = name := by
  rw [Rename.name]
  split
  · rename_i free
    simp only [Bool.and_eq_true, Bool.not_eq_true', beq_iff_eq] at free
    rw [View.spelling?, free.2, views.old, free.1, views.source, swap.fits.imported] at plain
    simp at plain
  · rfl

theorem moduleMember_name (notNew : name ≠ swap.new) (member : String)
    {path : Option String} (found : first.moduleMember name member = .ok path) :
    second.moduleMember (swap.name bound name) member = .ok path := by
  unfold View.moduleMember at found ⊢
  rw [views.spelling?_name notNew, views.copy]
  rw [views.source] at found
  cases spelled : first.spelling? name with
  | none =>
    rw [spelled] at found
    exact found
  | some spelling =>
    rw [spelled] at found
    cases spelling with
    | projectModule index =>
      dsimp only at found ⊢
      rw [Swap.extended, Rename.extend]
      dsimp only
      split at found
      · exact found
      · split at found
        · exact found
        · cases found
      · cases found
    | _ => exact found

theorem spellsTypes {part : Part} (spares : part.Throughout swap.Spares) :
    View.SpellsTypes part first second := by
  have looked : swap.extended.spellings.lookup swap.old = some .foreignType := by
    have apart : (swap.old == swap.new) = false := by simpa using swap.fits.distinct.symm
    simp [Swap.extended, Rename.extend, lookup_cons, apart]
  refine ⟨fun node inside => ?_, fun owner found => ?_, fun index name => ?_⟩
  · by_cases isOld : node.text = swap.old
    · rw [isOld, View.spelling?, View.spelling?, views.isLocal_eq, views.copy, views.source,
        swap.fits.imported, looked]
      split <;> rfl
    · rw [views.spelling?_of_ne isOld (spares node inside).unused]
  · have inside : owner ∈ part.descendants := Tree.mem_descendants_of_mem_children
      (Tree.mem_children_of_field? found)
    by_cases isOld : owner.text = swap.old
    · rw [isOld, View.spelling?, View.spelling?, views.isLocal_eq, views.copy, views.source,
        swap.fits.imported, looked]
      split
      · rfl
      · exact congrArg some (spares.top.owner owner found isOld)
    · rw [views.spelling?_of_ne isOld (spares owner inside).unused]
  · rw [views.source, views.copy]
    rfl

end Swap.Views

theorem Rename.Spares.rendered {rendering : Rendering}
    {children : List Node} (spares : rename.Spares (.node token () children)) :
    rename.Spares (.node token rendering (children.map Lower.rendered)) := by
  refine ⟨spares.unused, fun owner found isOld => ?_⟩
  have field := field?_rendered (.node token () children) "module"
  rw [Lower.rendered, Tree.annotate_node] at field
  obtain ⟨source, inside, rfl⟩ := Option.map_eq_some_iff.mp (field.symm.trans found)
  exact spares.owner source inside (text_rendered source ▸ isOld)

theorem spares_rendered (spares : tree.Throughout rename.Spares) :
    (rendered tree).Throughout rename.Spares := by
  refine Tree.throughout_annotate (fun token old children spares _ => ?_) spares
  rw [Tree.annotate_node]
  exact spares.rendered

theorem typed_of_spares (bound : Bool) (spares : tree.Throughout swap.Spares) :
    (rendered tree).Every (Rendering.TypedBy (swap.Views bound)) := by
  induction tree using Tree.tree_induction with
  | node token value children below =>
    have typed : ∀ child ∈ children.map rendered,
        child.Every (Rendering.TypedBy (swap.Views bound)) := by
      intro child member
      obtain ⟨source, found, rfl⟩ := mem_map.mp member
      exact below source found (spares.child found)
    have free : (partOf token (children.map rendered)).Throughout swap.Spares := by
      refine .node spares.top.rendered fun child member => ?_
      obtain ⟨source, found, rfl⟩ := mem_map.mp member
      exact spares_rendered (spares.child found)
    rw [rendered, Tree.annotate_node]
    refine .node (fun first second views => ?_) typed
    exact renderType_congr views (views.spellsTypes free) (.node (fun _ _ _ => rfl) typed)

section Runs

variable {before between after bound : Bool}
variable {alike : α → β → Prop} {body : α → Lowering γ} {copy : Lowering β} {items : List α}
variable {twins : List β} {next : α → Lowering γ} {detail : String}

/-- A lowering of the copy that mirrors one of the tree: from a state where the old name is bound
or not, it gives what that gives and leaves the same state, where the old name is bound or not. -/
def Mirrors (swap : Swap) (before after : Bool) (alike : α → β → Prop)
    (body : Lowering α) (copy : Lowering β) : Prop :=
  ∀ state value last, swap.Holds before state → body.evaluate swap.context state =
    (.ok value, last) →
    ∃ copied, copy.evaluate swap.extended state = (.ok copied, last) ∧
      alike value copied ∧ swap.Holds after last ∧ last.scopes.tail = state.scopes.tail

/-- A lowering of the copy that gives the same and binds nothing. -/
abbrev Echoes (swap : Swap) (bound : Bool) (body copy : Lowering α) : Prop :=
  Mirrors swap bound bound Eq body copy

/-- A lowering of the copy that gives the same and may bind the old name. -/
abbrev Rebinds (swap : Swap) (bound binds : Bool) (body copy : Lowering α) : Prop :=
  Mirrors swap bound (bound || binds) Eq body copy

theorem mirrors_pure {value : α} {copied : β} (same : alike value copied) :
    Mirrors swap bound bound alike (pure value) (pure copied) := by
  intro state given last holds run
  obtain ⟨rfl, rfl⟩ := pure_eq_ok.mp run
  exact ⟨copied, rfl, same, holds, rfl⟩

theorem mirrors_bind {held : α → β → Prop} {alike : γ → δ → Prop} {first : Lowering α}
    {nextCopy : β → Lowering δ}
    (head : Mirrors swap before between held first copy)
    (tail : ∀ value copied, held value copied →
      Mirrors swap between after alike (next value) (nextCopy copied)) :
    Mirrors swap before after alike (first >>= next) (copy >>= nextCopy) := by
  intro state value last holds run
  obtain ⟨middle, there, firstRun, nextRun⟩ := bind_eq_ok.mp run
  obtain ⟨copied, copyRun, same, holdsThere, tailThere⟩ := head state middle there holds firstRun
  obtain ⟨result, resultRun, alikeResult, holdsLast, tailLast⟩ :=
    tail middle copied same there value last holdsThere nextRun
  exact ⟨result, bind_eq_ok.mpr ⟨copied, there, copyRun, resultRun⟩, alikeResult,
    holdsLast, tailLast.trans tailThere⟩

theorem mirrors_next {alike : γ → δ → Prop} {first copy : Lowering α}
    {nextCopy : α → Lowering δ} (head : Mirrors swap before between Eq first copy)
    (tail : ∀ value, Mirrors swap between after alike (next value) (nextCopy value)) :
    Mirrors swap before after alike (first >>= next) (copy >>= nextCopy) :=
  mirrors_bind head fun value _ same => same ▸ tail value

theorem mirrors_map {first copy : Lowering α} {give : α → γ}
    (head : Mirrors swap before after Eq first copy) :
    Mirrors swap before after Eq (first >>= fun value => pure (give value))
      (copy >>= fun value => pure (give value)) :=
  mirrors_next head fun _ => mirrors_pure rfl

theorem mirrors_refusal {tree : TypeScript.Tree γ} :
    Mirrors swap before after alike (unsupported tree detail) copy := by
  intro state value last holds run
  simp at run

theorem mirrors_guard {condition : Prop} [Decidable condition]
    {tree : TypeScript.Tree γ} {body : Lowering α} {other : Lowering β}
    (rest : ¬condition → Mirrors swap before after alike body copy) :
    Mirrors swap before after alike (if condition then unsupported tree detail else body)
      (if condition then other else copy) := by
  split
  · exact mirrors_refusal
  · exact rest ‹_›

theorem mirrors_refusal_bind {alike : γ → δ → Prop} {tree : TypeScript.Tree β}
    {copy : Lowering δ} :
    Mirrors swap before after alike (unsupported tree detail >>= next) copy := by
  intro state value last holds run
  obtain ⟨_, _, refused, _⟩ := bind_eq_ok.mp run
  simp at refused

theorem mirrors_unsupportedToken :
    Mirrors swap before after alike (unsupportedToken token detail) copy := by
  intro state value last holds run
  simp at run

theorem mirrors_view {next : View → Lowering α} {nextCopy : View → Lowering β}
    (tail : ∀ first second, swap.Views before first second →
      Mirrors swap before after alike (next first) (nextCopy second)) :
    Mirrors swap before after alike (view >>= next) (view >>= nextCopy) := by
  intro state value last holds run
  have views : swap.Views before ⟨swap.context, state.scopes⟩
      ⟨swap.extended, state.scopes⟩ := ⟨rfl, rfl, rfl, holds.old, holds.new⟩
  exact tail _ _ views state value last holds run

theorem mirrors_read {next : Context → Lowering α} {nextCopy : Context → Lowering β}
    (tail : Mirrors swap before after alike (next swap.context) (nextCopy swap.extended)) :
    Mirrors swap before after alike (read >>= next) (read >>= nextCopy) :=
  fun state value last holds run => tail state value last holds run

theorem mirrors_get {next : Frame → Lowering α} {nextCopy : Frame → Lowering β}
    (tail : ∀ frame, Mirrors swap before after alike (next frame) (nextCopy frame)) :
    Mirrors swap before after alike (get >>= next) (get >>= nextCopy) :=
  fun state value last holds run => tail state.frame state value last holds run

theorem any_bindIn {name other : String} {scopes : List (List String)} (inside : scopes ≠ []) :
    (bindIn name scopes).any (·.contains other) =
      (scopes.any (·.contains other) || name == other) := by
  cases scopes with
  | nil => exact absurd rfl inside
  | cons scope outer =>
    rw [bindIn, any_cons, any_cons, contains_cons, Bool.beq_comm]
    ac_rfl

theorem mirrors_bindLocal {name : String} (notNew : name ≠ swap.new) :
    Rebinds swap bound (name == swap.old) (bindLocal name) (bindLocal name) := by
  intro state value last holds run
  have bindings : last = { state with scopes := bindIn name state.scopes } :=
    (Prod.mk.inj run).2.symm
  have apart : (name == swap.new) = false := by simpa using notNew
  rw [bindings]
  refine ⟨value, rfl, rfl, ⟨?_, ?_, ?_⟩, ?_⟩
  · cases scopes : state.scopes with
    | nil => exact absurd scopes holds.inside
    | cons scope outer => simp [bindIn]
  · rw [any_bindIn holds.inside, holds.old]
  · rw [any_bindIn holds.inside, holds.new, apart, Bool.or_false]
  · cases state.scopes <;> rfl

theorem Rename.Holds.congr {state other : State} (holds : swap.Holds bound state)
    (same : other.scopes = state.scopes) : swap.Holds bound other :=
  ⟨same ▸ holds.inside, same ▸ holds.old, same ▸ holds.new⟩

theorem echoes_of_scopes {body : Lowering α}
    (blind : ∀ state, body.evaluate swap.extended state = body.evaluate swap.context state)
    (keeps : ∀ state, (body.evaluate swap.context state).2.scopes = state.scopes) :
    Echoes swap bound body body := by
  intro state value last holds run
  have kept := keeps state
  rw [run] at kept
  exact ⟨value, (blind state).trans run, rfl, holds.congr kept, by rw [kept]⟩

theorem mirrors_freshTemp : Echoes swap bound freshTemp freshTemp :=
  echoes_of_scopes (fun _ => rfl) fun _ => rfl

theorem mirrors_recordGap (position : Text.Position) :
    Echoes swap bound (recordGap position) (recordGap position) :=
  echoes_of_scopes (fun _ => rfl) fun _ => rfl

theorem mirrors_withScope {body : Lowering α} (inside : Mirrors swap bound after alike body copy) :
    Mirrors swap bound bound alike (withScope body) (withScope copy) := by
  intro state value last holds run
  obtain ⟨there, bodyRun, rfl⟩ := withScope_eq_ok.mp run
  have opened : swap.Holds bound { state with scopes := [] :: state.scopes } :=
    ⟨by simp, by simpa using holds.old, by simpa using holds.new⟩
  obtain ⟨copied, copyRun, same, _, kept⟩ := inside _ value there opened bodyRun
  have closed : there.scopes.tail = state.scopes := kept
  exact ⟨copied, withScope_eq_ok.mpr ⟨there, copyRun, rfl⟩, same, holds.congr closed,
    by simp only [closed]⟩

theorem mirrors_withJump {body : Lowering α} (jump : Jump)
    (inside : Mirrors swap before after alike body copy) :
    Mirrors swap before after alike (withJump jump body) (withJump jump copy) := by
  intro state value last holds run
  obtain ⟨there, bodyRun, rfl⟩ := withJump_eq_ok.mp run
  obtain ⟨copied, copyRun, same, left, kept⟩ :=
    inside _ value there (by exact holds.congr rfl) bodyRun
  exact ⟨copied, withJump_eq_ok.mpr ⟨there, copyRun, rfl⟩, same, left.congr rfl, kept⟩

/-- Items whose lowerings mirror each other one behind the other. -/
inductive Chained (swap : Swap) (alike : γ → δ → Prop)
    (body : α → Lowering γ) (copy : β → Lowering δ) : Bool → List α → List β → Bool → Prop where
  | nil (bound : Bool) : Chained swap alike body copy bound [] [] bound
  /-- The first items mirror each other, and then the others do. -/
  | cons {before between after : Bool} {item : α} {twin : β} {rest : List α} {twins : List β}
      (head : Mirrors swap before between alike (body item) (copy twin))
      (tail : Chained swap alike body copy between rest twins after) :
      Chained swap alike body copy before (item :: rest) (twin :: twins) after

theorem mirrors_forEach {alike : γ → δ → Prop} {copy : β → Lowering δ}
    (each : Chained swap alike body copy before items twins after) :
    Mirrors swap before after (Forall₂ alike) (forEach items body) (forEach twins copy) := by
  induction each with
  | nil bound => exact mirrors_pure .nil
  | cons head tail tail_mirrors =>
    refine mirrors_bind head fun result copied same => ?_
    refine mirrors_bind tail_mirrors fun results others alikes => ?_
    exact mirrors_pure (.cons same alikes)

theorem mirrors_forEach_eq {copy : β → Lowering γ}
    (each : Chained swap Eq body copy before items twins after) :
    Mirrors swap before after Eq (forEach items body) (forEach twins copy) := by
  have together := mirrors_forEach each
  rw [forall₂_eq_eq_eq] at together
  exact together

theorem chained_of_forall₂ {held : α → β → Prop} {alike : γ → δ → Prop} {copy : β → Lowering δ}
    (paired : Forall₂ held items twins)
    (each : ∀ item twin, held item twin → Mirrors swap bound bound alike (body item) (copy twin)) :
    Chained swap alike body copy bound items twins bound := by
  induction paired with
  | nil => exact .nil bound
  | cons head _ rest_chained => exact .cons (each _ _ head) rest_chained

end Runs

end Haxify.Lower
