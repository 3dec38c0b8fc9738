import Haxify.Lower.Context
import Haxify.Lower.Temporary

/-!
# Lowering as a computation

Lowering reads the context of the file, may fail at the first construct without
a Haxe form, and keeps track of the names in scope, of what a jump would leave,
and of the temporaries in use. Scopes and jump targets are opened around a body and
closed behind it, whatever its outcome. Gaps that were found are never taken back.
-/

namespace Haxify.Lower

/-- What a jump may leave or restart. -/
inductive Jump where
  | function
  | loop (isCounting : Bool)
  | switch
deriving DecidableEq, Repr

/-- What changes while a file is lowered. -/
structure State where
  scopes : List (List String)
  /-- The open jump targets, the innermost first. -/
  jumps : List Jump
  /-- The number from which the next temporary is looked for. -/
  nextTemp : Nat
  /-- Where a jump passes over the step of a counting loop, in the order found. -/
  gaps : List Text.Position
deriving DecidableEq, Repr

/-- The state at the start of a file. -/
def State.initial : State := ⟨[], [], 0, []⟩

/-- What a lowering may look at and change of the state. -/
structure Frame where
  scopes : List (List String)
  jumps : List Jump
  nextTemp : Nat

/-- A value with the gaps found on the way to it. -/
def Noted (α : Type) : Type := α × List Text.Position

instance : Monad Noted where
  pure value := (value, [])
  bind first next :=
    let second := next first.1
    (second.1, first.2 ++ second.2)

instance : LawfulMonad Noted := .mk' _
  (fun _ => Prod.ext rfl (List.append_nil _))
  (fun _ _ => Prod.ext rfl (List.nil_append _))
  (fun _ _ _ => Prod.ext rfl (List.append_assoc _ _ _))

/-- A computation that lowers a part of a file. -/
abbrev Lowering := ReaderT Context (ExceptT Unsupported (StateT Frame Noted))

def State.frame (state : State) : Frame := ⟨state.scopes, state.jumps, state.nextTemp⟩

def State.behind {α : Type} (state : State) (run : Noted (α × Frame)) : State :=
  let gaps := run.2.foldl (fun gaps gap => gaps ++ [gap]) state.gaps
  ⟨run.1.2.scopes, run.1.2.jumps, run.1.2.nextTemp, gaps⟩

/-- Runs a computation; the state is known also when it fails. -/
def Lowering.evaluate {α : Type} (body : Lowering α) (context : Context) (state : State) :
    Except Unsupported α × State :=
  let run := body context state.frame
  (run.1.1, state.behind run)

/-- Gives up on a file because of a construct in it. -/
def unsupportedToken {α : Type} (token : TypeScript.Token) (detail : String) : Lowering α :=
  throw ⟨token.kind, token.position, detail⟩

/-- Gives up on a file because of the construct at the top of a tree. -/
def unsupported {α β : Type} (tree : TypeScript.Tree β) (detail : String) : Lowering α :=
  unsupportedToken tree.token detail

/-- What is known here about the spelling of names. -/
def view : Lowering View := do
  return ⟨← read, (← get).scopes⟩

/-- The scopes with a name added to the innermost one; without a scope there is none
to add it to. -/
def bindIn (name : String) : List (List String) → List (List String)
  | [] => []
  | scope :: outer => (name :: scope) :: outer

def bindLocal (name : String) : Lowering Unit :=
  modify fun state => { state with scopes := bindIn name state.scopes }

def withScope {α : Type} (body : Lowering α) : Lowering α := fun context state =>
  let run := body context { state with scopes := [] :: state.scopes }
  ((run.1.1, { run.1.2 with scopes := run.1.2.scopes.tail }), run.2)

/-- Runs a body with a jump target of its own. -/
def withJump {α : Type} (jump : Jump) (body : Lowering α) : Lowering α := fun context state =>
  let run := body context { state with jumps := jump :: state.jumps }
  ((run.1.1, { run.1.2 with jumps := run.1.2.jumps.tail }), run.2)

/-- A temporary that neither the file nor any other temporary is named like. -/
def freshTemp : Lowering String := do
  let taken := (← read).takenTemps
  let number := Text.leastFree tempName taken (← get).nextTemp
  modify fun state => { state with nextTemp := number + 1 }
  return tempName number

/-- What a jump out of the innermost loop or switch would leave; none at the body of a
function. -/
def leftBy (jumps : List Jump) : Option Jump :=
  match jumps with
  | [] => none
  | jump :: _ => if jump = .function then none else some jump

/-- The loop that a jump to its next round would restart, looked for within the
function. -/
def restartedBy (jumps : List Jump) : Option Jump :=
  (jumps.takeWhile (· != .function)).find? fun
    | .loop _ => true
    | _ => false

/-- Notes a place where a jump passes over the step of a counting loop. -/
def recordGap (position : Text.Position) : Lowering Unit := fun _ state =>
  ((.ok (), state), [position])

/-- Runs a computation on each item in order and collects the results. -/
def forEach {α β : Type} (items : List α) (body : α → Lowering β) : Lowering (List β) :=
  match items with
  | [] => pure []
  | item :: rest => do
    let result ← body item
    let results ← forEach rest body
    return result :: results

end Haxify.Lower
