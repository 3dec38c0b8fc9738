import Haxify.Proofs.Refusal

/-!
# Where jumps lead

A jump leaves or restarts what is around it in its function. The lowering keeps the targets in its
state, opens them in whatever order it writes the parts of a statement, and drops the jumps that
end the clauses of a switch. That it decides every jump by the targets around it is a discipline:
a lowering runs at the targets of its site, it reports no jump but those that pass over the step of
a counting loop, and where all reports are known every such jump that is written is among them.

The statements of a default that another default follows are not written, and so no jump in them
is reported or refused.
-/

namespace Haxify.Lower

open List
open TypeScript (Tree Node)
open Lowering

variable {α β : Type} {context : Context} {state after : State} {around : List Jump}

/-- A jump to the next round of a counting loop, which passes over its step. -/
def Site.IsGap (site : Site α) : Prop :=
  site.node.kind = "continue_statement" ∧ site.node.field? "label" = none ∧
    restartedBy site.around = some (.loop true)

/-- A jump that names no target and stands in a loop, with no switch between. -/
def Site.LeavesLoop (site : Site α) : Prop :=
  site.node.field? "label" = none ∧ ∃ isCounting, leftBy site.around = some (.loop isCounting)

/-- A jump over the step of a loop is at a known place, and a break leaves a loop. -/
def Site.Decided (known : Text.Position → Prop) (site : Site α) : Prop :=
  (site.IsGap → known site.node.token.position) ∧
    (site.node.kind = "break_statement" → site.LeavesLoop)

section Targets

/-- The jump targets within the innermost function. -/
def State.targets (state : State) : List Jump := state.jumps.takeWhile (· != .function)

theorem leftBy_targets (state : State) : leftBy state.targets = leftBy state.jumps := by
  rw [State.targets]
  cases state.jumps with
  | nil => rfl
  | cons jump rest => cases jump <;> rfl

theorem restartedBy_targets (state : State) :
    restartedBy state.targets = restartedBy state.jumps := by
  rw [restartedBy, restartedBy, State.targets, takeWhile_idem]

theorem targets_enter {jump : Jump} (other : jump ≠ .function) (state : State) :
    State.targets { state with jumps := jump :: state.jumps } = jump :: state.targets := by
  cases jump with
  | function => exact absurd rfl other
  | _ => rfl

theorem continueStatement_eq_ok {node : Part} {code : List Haxe.Code}
    (run : (continueStatement node).evaluate context state = (.ok code, after)) :
    node.field? "label" = none ∧ after =
      if restartedBy state.jumps = some (.loop true) then
        { state with gaps := state.gaps ++ [node.token.position] }
      else state := by
  rw [continueStatement] at run
  split at run
  · cases run
  · rename_i plain
    refine ⟨by simpa using plain, ?_⟩
    rw [evaluate_bind, evaluate_get] at run
    dsimp only at run
    split at run
    · rw [if_pos ‹_›]
      exact (Prod.mk.inj run).2.symm
    · rw [if_neg ‹_›]
      exact (Prod.mk.inj run).2.symm

end Targets

section Discipline

/-- The gaps behind a run, whatever is run. -/
theorem gaps_evaluate (body : Lowering α) (context : Context) (state : State) :
    ∃ added, (body.evaluate context state).2.gaps = state.gaps ++ added :=
  ⟨_, foldl_append_eq_append⟩

/-- Where all gaps behind it are known, a lowering keeps the targets, adds expected gaps only, and
its value has a property. -/
def Tells (context : Context) (expected known : Text.Position → Prop) (around : List Jump)
    (holds : α → Prop) (body : Lowering α) : Prop :=
  ∀ (state : State) (value : α) (after : State), state.targets = around →
    body.evaluate context state = (.ok value, after) → (∀ gap ∈ after.gaps, known gap) →
      after.jumps = state.jumps ∧ (∀ gap ∈ after.gaps, gap ∈ state.gaps ∨ expected gap) ∧
        holds value

variable {expected known : Text.Position → Prop} {holds : α → Prop} {node : Part}

theorem tells_of_kept {body : Lowering α}
    (kept : ∀ (state : State) (value : α) (after : State), state.targets = around →
      body.evaluate context state = (.ok value, after) →
        after.jumps = state.jumps ∧ after.gaps = state.gaps ∧ holds value) :
    Tells context expected known around holds body := by
  intro state value after targets run _
  obtain ⟨jumps, gaps, fact⟩ := kept state value after targets run
  exact ⟨jumps, fun gap member => .inl (gaps ▸ member), fact⟩

theorem tells_bind {held : α → Prop} {holds : β → Prop} {first : Lowering α}
    {next : α → Lowering β} (head : Tells context expected known around held first)
    (tail : ∀ value, held value → Tells context expected known around holds (next value)) :
    Tells context expected known around holds (first >>= next) := by
  intro state value after targets run allKnown
  obtain ⟨middle, between, firstRun, nextRun⟩ := bind_eq_ok.mp run
  -- Gaps are never taken back, so those in between are known as well.
  have someKnown : ∀ gap ∈ between.gaps, known gap := by
    intro gap member
    obtain ⟨added, gaps⟩ := gaps_evaluate (next middle) context between
    rw [nextRun] at gaps
    exact allKnown gap (gaps ▸ mem_append_left added member)
  obtain ⟨jumps, firstGaps, fact⟩ := head state middle between targets firstRun someKnown
  have same : between.targets = around := by rw [State.targets, jumps, ← targets, State.targets]
  obtain ⟨later, nextGaps, result⟩ := tail middle fact between value after same nextRun allKnown
  refine ⟨later.trans jumps, fun gap member => ?_, result⟩
  rcases nextGaps gap member with before | new
  · exact firstGaps gap before
  · exact .inr new

theorem tells_withScope {body : Lowering α}
    (inside : Tells context expected known around holds body) :
    Tells context expected known around holds (withScope body) := by
  intro state value after targets run allKnown
  obtain ⟨there, bodyRun, rfl⟩ := withScope_eq_ok.mp run
  exact inside { state with scopes := [] :: state.scopes } value there targets bodyRun allKnown

theorem tells_withJump {body : Lowering α} {inner : List Jump} (jump : Jump)
    (enters : ∀ state : State, state.targets = around →
      State.targets { state with jumps := jump :: state.jumps } = inner)
    (inside : Tells context expected known inner holds body) :
    Tells context expected known around holds (withJump jump body) := by
  intro state value after targets run allKnown
  obtain ⟨there, bodyRun, rfl⟩ := withJump_eq_ok.mp run
  obtain ⟨jumps, gaps, fact⟩ := inside _ value there (enters state targets) bodyRun allKnown
  exact ⟨by simp only [jumps, tail_cons], gaps, fact⟩

theorem tells_breakStatement (same : node.kind = "break_statement") :
    Tells context expected known around (fun _ => Site.Decided known ⟨around, node⟩)
      (breakStatement node) := by
  refine tells_of_kept fun state code after targets run => ?_
  obtain ⟨noLabel, ⟨isCounting, left⟩, _, rfl⟩ := breakStatement_eq_ok.mp run
  refine ⟨rfl, rfl, fun gap => ?_, fun _ => ⟨noLabel, isCounting, ?_⟩⟩
  · exact absurd (same.symm.trans gap.1) (by decide)
  · rw [← targets, leftBy_targets, left]

theorem tells_continueStatement (same : node.kind = "continue_statement")
    (isExpected : Site.IsGap ⟨around, node⟩ → expected node.token.position) :
    Tells context expected known around (fun _ => Site.Decided known ⟨around, node⟩)
      (continueStatement node) := by
  intro state code after targets run allKnown
  obtain ⟨noLabel, finish⟩ := continueStatement_eq_ok run
  rw [← restartedBy_targets, targets] at finish
  have noBreak : node.kind ≠ "break_statement" := by
    rw [same]
    decide
  split at finish
  · rename_i restarted
    subst finish
    refine ⟨rfl, fun gap member => ?_, fun _ => ?_, fun isBreak => absurd isBreak noBreak⟩
    · rcases mem_append.mp member with before | new
      · exact .inl before
      · rw [mem_singleton.mp new]
        exact .inr (isExpected ⟨same, noLabel, restarted⟩)
    · exact allKnown _ (mem_append_right _ (mem_singleton_self _))
  · rename_i other
    subst finish
    exact ⟨rfl, fun _ => .inl, fun isGap => absurd isGap.2.2 other,
      fun isBreak => absurd isBreak noBreak⟩

/-- To decide jumps by the targets around them is a discipline. -/
def jumping (context : Context) (expected known : Text.Position → Prop) : Discipline where
  Allows around holds body := Tells context expected known around holds body
  Expects site := site.IsGap → expected site.node.token.position
  Permits site := site.Decided known
  foreign := context.importedNames.contains
  legible := False
  value fact := tells_of_kept fun state value after _ run => by
    obtain ⟨rfl, rfl⟩ := pure_eq_ok.mp run
    exact ⟨rfl, rfl, fact⟩
  chain := tells_bind
  refusal _ := tells_of_kept fun state value after _ run => by cases run
  gives allowed known state value after targets run allKnown :=
    have ⟨jumps, gaps, fact⟩ := allowed state value after targets run allKnown
    ⟨jumps, gaps, known context state value after run, fact⟩
  names _ each := by
    intro state value after targets run allKnown
    obtain ⟨seen, between, look, behind⟩ := bind_eq_ok.mp run
    cases look
    exact each _ (fun _ _ _ found => contains_iff_mem.mpr (mem_importedNames found))
      False.elim _ _ _ targets behind allKnown
  surroundings _ each := by
    intro state value after targets run allKnown
    obtain ⟨seen, between, look, behind⟩ := bind_eq_ok.mp run
    cases look
    exact each _ False.elim _ _ _ targets behind allKnown
  binding _ _ := tells_of_kept fun state value after _ run => by
    rw [← (Prod.mk.inj run).2]
    exact ⟨rfl, rfl, trivial⟩
  temporary := tells_of_kept fun state value after _ run => by
    rw [← (Prod.mk.inj run).2]
    exact ⟨rfl, rfl, trivial⟩
  scope := tells_withScope
  jump jump other := tells_withJump jump fun state targets => by rw [targets_enter other, targets]
  function inside := tells_withScope (tells_withJump _ (fun _ _ => rfl) inside)
  leave := tells_breakStatement
  restart := tells_continueStatement
  ordinary _ plain := by
    simp only [mem_cons, not_or] at plain
    exact ⟨fun gap => absurd gap.1 plain.2.1, fun isBreak => absurd isBreak plain.1⟩
  expected := id
  permitted := id

end Discipline

section Files

variable {program : Program} {registry : Foreign.Registry} {indent : String} {index : Nat}
  {file : SourceFile} {output : Haxe.File}

/-- A place in a tree where a function passes over the step of a counting loop. -/
def HasGapAt (tree : Node) (place : Text.Position) : Prop :=
  ∃ function ∈ (rendered tree).descendants, function.kind ∈ callableKinds ∧
    ∃ site, Site.Contains Site.inner ⟨[], function⟩ site ∧ site.IsGap ∧
      site.node.token.position = place

theorem jumps_of_fileItems {items : List String}
    (run : fileItems.evaluate context .initial = (.ok items, after)) :
    (∀ gap ∈ after.gaps, HasGapAt context.file.tree gap) ∧
      ∀ item ∈ (rendered context.file.tree).named, isValueItem item →
        (jumping context (HasGapAt context.file.tree) (· ∈ after.gaps)).Settles ⟨[], item⟩ := by
  have hosts : (rendered context.file.tree).Throughout
      (jumping context (HasGapAt context.file.tree) (· ∈ after.gaps)).Hosts :=
    fun function below callable => ⟨not_mem_nil, fun site inside gap =>
      ⟨function, below, callable, site, inside, gap, rfl⟩⟩
  have allowed : (jumping context (HasGapAt context.file.tree) (· ∈ after.gaps)).Allows [] _
      (itemsOf context.file.tree) := allowed_itemsOf _ hosts False.elim
  rw [fileItems_eq] at run
  obtain ⟨_, _, look, behind⟩ := bind_eq_ok.mp run
  cases look
  obtain ⟨_, gaps, _, settles⟩ := allowed _ _ _ rfl behind fun _ => id
  exact ⟨fun gap member => (gaps gap member).resolve_left not_mem_nil, settles⟩

theorem breakStatement_of_leavesLoop {site : Site Rendering} (leaves : site.LeavesLoop)
    (context : Context) (here : state.targets = site.around) :
    (breakStatement site.node).evaluate context state = (.ok [.line "break;"], state) := by
  obtain ⟨noLabel, isCounting, left⟩ := leaves
  refine breakStatement_eq_ok.mpr ⟨noLabel, ⟨isCounting, ?_⟩, rfl, rfl⟩
  rw [← leftBy_targets, here, left]

namespace Sample

def counting (body : List Node) : Node :=
  function [node "for_statement" "" "" [node "statement_block" "body" "" body]]

def again : Node := node "continue_statement" "body" "continue;" []

def overlookedGap : Node :=
  counting [switch [clause none [again], clause none [call "g"]]]

end Sample

open Sample

/-- Jumps are decided by what is around them in their function. The reported places are those of
jumps that name no target and whose innermost loop is a counting one, and every such jump that is
written is reported. Every break that is written names no target and stands in a loop with no
switch between, and is written as such. A switch is written with the breaks that end its arms
taken away. -/
theorem jumps_lead_where_they_stand
    (lowered : (lowerFile program registry indent index file).result = .ok output) :
    (∀ gap ∈ (lowerFile program registry indent index file).gaps, HasGapAt file.tree gap) ∧
    (∃ imports, importsOf program registry file = .ok imports ∧
      ∀ item ∈ (rendered file.tree).named, isValueItem item → ∀ site,
        Site.Contains (Site.lowered (imports.spellings.map (·.1)).contains) ⟨[], item⟩ site →
          (site.IsGap →
            site.node.token.position ∈ (lowerFile program registry indent index file).gaps) ∧
          (site.node.kind = "break_statement" → site.LeavesLoop ∧
            ∀ (context : Context) (state : State), state.targets = site.around →
              (breakStatement site.node).evaluate context state = (.ok [.line "break;"], state))) ∧
    ∀ (context : Context) (state after : State) (node : Part) (code : List Haxe.Code),
      (switchStatement node).evaluate context state = (.ok code, after) →
        ∃ clauses, SwitchLowers context node clauses code := by
  obtain ⟨imports, items, state, found, run, _⟩ := lowerFile_eq_ok lowered
  have gaps : (lowerFile program registry indent index file).gaps = state.gaps := by
    rw [lowerFile_eq found]
    simp only [run]
  obtain ⟨expected, settles⟩ := jumps_of_fileItems run
  rw [gaps]
  refine ⟨expected, ⟨imports, found, fun item member isItem site inside => ?_⟩,
    fun context state after node code switched => ?_⟩
  · have isNamed : item.isNamed := (mem_filter.mp member).2
    obtain ⟨reported, leaves⟩ := settles item member isItem isNamed site inside
    exact ⟨reported, fun isBreak => ⟨leaves isBreak, fun context state here =>
      breakStatement_of_leavesLoop (leaves isBreak) context here⟩⟩
  · obtain ⟨clauses, lowers, _⟩ := switchStatement_eq_ok switched
    exact ⟨clauses, lowers⟩

/-- A jump to the next round of a counting loop is reported. -/
theorem counting_jump_is_reported :
    (alone (counting [again])).gaps = [⟨1, 1⟩] ∧
      HasGapAt (fileOf (counting [again])).tree ⟨1, 1⟩ := by
  have gaps : (alone (counting [again])).gaps = [⟨1, 1⟩] := by decide +kernel
  have accepted : (alone (counting [again])).result.isOk := by decide +kernel
  obtain ⟨output, lowered⟩ := Program.exists_eq_ok accepted
  refine ⟨gaps, (jumps_lead_where_they_stand lowered).1 _ ?_⟩
  change _ ∈ (alone (counting [again])).gaps
  rw [gaps]
  exact mem_singleton_self _

/-- A jump in a default that another one follows is not reported. -/
theorem overlooked_gap_is_not_reported :
    (alone overlookedGap).result.isOk ∧
      (alone overlookedGap).gaps = [] ∧
      HasGapAt (fileOf overlookedGap).tree ⟨1, 1⟩ := by
  refine ⟨by decide +kernel, by decide +kernel, rendered overlookedGap, ?_, by decide, ?_⟩
  · exact Tree.mem_descendants.mpr (.inr ⟨_, .head _, Tree.mem_descendants.mpr (.inl rfl)⟩)
  · -- Through the loop, the switch and its first clause down to the jump.
    refine ⟨_, .head (mem_inner _ (.tail _ (.tail _ (.head _)))) <| .head (mem_inner _ (.head _)) <|
      .head (mem_inner _ (.head _)) <| .head (mem_inner _ (.head _)) <|
      .head (mem_inner _ (.tail _ (.head _))) <| .head (mem_inner _ (.head _)) <|
      .head (mem_inner _ (.head _)) .refl, ⟨rfl, rfl, rfl⟩, rfl⟩

end Files

end Haxify.Lower
