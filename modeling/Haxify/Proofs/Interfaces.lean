import Haxify.Foreign.Registry
import Haxify.Project.Exports
import Mathlib.Data.List.Forall2

/-!
# Files seen from other files

Another file sees of a file where it lies, whether a module is made of it, the address of that
module, what it imports, and what it declares and offers: its interface. Programs whose files
have the same interfaces one by one resolve every specifier, every exported name and every
name of a file alike, however much the texts of the files differ.
-/

namespace Haxify

/-- Files that no other file can tell apart. -/
structure SourceFile.SameInterface (first second : SourceFile) : Prop where
  path : first.path = second.path
  /-- Their names say the same about what they hold. -/
  kind : first.kind = second.kind
  address : first.address = second.address
  imports : first.imports = second.imports
  exports : first.exports = second.exports

namespace SourceFile.SameInterface

variable {first second : SourceFile}

theorem isLowered (same : first.SameInterface second) : first.isLowered = second.isLowered := by
  rw [SourceFile.isLowered, SourceFile.isLowered, same.kind]

theorem askedNames (same : first.SameInterface second) :
    Exports.askedNames first = Exports.askedNames second := by
  rw [Exports.askedNames, Exports.askedNames, same.imports, same.exports]

end SourceFile.SameInterface

/-- Programs whose files have the same interfaces. -/
def Program.SameInterfaces (first second : Program) : Prop :=
  List.Forall₂ SourceFile.SameInterface first.files second.files

namespace Program.SameInterfaces

variable {first second : Program}
variable (same : first.SameInterfaces second)
include same

theorem getElem? (index : Nat) :
    (first.files[index]? = none ∧ second.files[index]? = none) ∨
      ∃ one other, first.files[index]? = some one ∧ second.files[index]? = some other ∧
        one.SameInterface other := by
  rw [Program.SameInterfaces] at same
  generalize first.files = ones at same ⊢
  generalize second.files = others at same ⊢
  induction same generalizing index with
  | nil => exact .inl ⟨rfl, rfl⟩
  | cons head _ rest_same =>
    cases index with
    | zero => exact .inr ⟨_, _, rfl, rfl, head⟩
    | succ index => exact rest_same index

theorem findPath : first.findPath = second.findPath := by
  have from_congr : ∀ path index,
      findFrom path index first.files = findFrom path index second.files := by
    intro path index
    rw [Program.SameInterfaces] at same
    generalize first.files = ones at same ⊢
    generalize second.files = others at same ⊢
    induction same generalizing index with
    | nil => rfl
    | cons head _ rest_same => rw [findFrom, findFrom, rest_same, head.path]
  exact funext fun path => from_congr path 0

theorem resolveFrom : first.resolveFrom = second.resolveFrom := by
  funext path specifier
  rw [Program.resolveFrom, Program.resolveFrom, same.findPath]

theorem memberPath : first.memberPath = second.memberPath := by
  funext index member
  rw [Program.memberPath, Program.memberPath]
  rcases same.getElem? index with ⟨none, missing⟩ | ⟨one, other, here, there, files⟩
  · rw [none, missing]
  · simp only [here, there, files.address]

theorem any_isLowered (index : Nat) :
    (first.files[index]?).any (·.isLowered) = (second.files[index]?).any (·.isLowered) := by
  rcases same.getElem? index with ⟨none, missing⟩ | ⟨one, other, here, there, files⟩
  · rw [none, missing]
  · simp only [here, there, Option.any_some, files.isLowered]

theorem localOrigin {one other : SourceFile} (files : one.SameInterface other) (index : Nat) :
    Exports.localOrigin first index one = Exports.localOrigin second index other := by
  funext localName
  simp only [Exports.localOrigin, Exports.importOrigin, files.exports, files.imports, files.path,
    same.resolveFrom]

theorem passedOn {one other : SourceFile} (files : one.SameInterface other) :
    Exports.passedOn first one = Exports.passedOn second other := by
  funext name
  simp only [Exports.passedOn, Exports.importOrigin, Exports.wildcardTargets, files.exports,
    files.path, same.resolveFrom]

theorem step : Exports.step first = Exports.step second := by
  funext query
  rw [Exports.step, Exports.step]
  rcases same.getElem? query.1 with ⟨none, missing⟩ | ⟨one, other, here, there, files⟩
  · rw [none, missing]
  · simp only [here, there, Exports.namedStep, files.isLowered, files.exports,
      same.localOrigin files, same.passedOn files]

theorem queries : Exports.queries first = Exports.queries second := by
  have asked : first.files.flatMap Exports.askedNames =
      second.files.flatMap Exports.askedNames := by
    rw [Program.SameInterfaces] at same
    generalize first.files = ones at same ⊢
    generalize second.files = others at same ⊢
    induction same with
    | nil => rfl
    | cons head _ rest_same => rw [List.flatMap_cons, List.flatMap_cons, head.askedNames, rest_same]
  funext name
  rw [Exports.queries, Exports.queries, asked, List.Forall₂.length_eq same]

theorem search (unasked pending : List Exports.Query) :
    Exports.search first unasked pending = Exports.search second unasked pending := by
  -- Both searches take the same step at every query, so they go through the same queries.
  fun_induction Exports.search first unasked pending with
  | case1 unasked => rw [Exports.search]
  | case2 unasked query rest allowed result found
  | case4 unasked query rest allowed member result found =>
    rw [Exports.search, if_pos allowed, ← same.step, found]
  | case3 unasked query rest allowed followed found rest_same
  | case5 unasked query rest allowed member followed found rest_same =>
    rw [rest_same, eq_comm, Exports.search, if_pos allowed, ← same.step, found]
  | case6 unasked query rest skipped rest_same =>
    rw [rest_same, eq_comm, Exports.search, if_neg skipped]

theorem resolve : Exports.resolve first = Exports.resolve second := by
  funext index name
  rw [Exports.resolve, Exports.resolve, same.queries, same.search]

theorem resolveLocal : Exports.resolveLocal first = Exports.resolveLocal second := by
  funext index name
  rw [Exports.resolveLocal, Exports.resolveLocal]
  rcases same.getElem? index with ⟨none, missing⟩ | ⟨one, other, here, there, files⟩
  · rw [none, missing]
  · simp only [here, there, same.localOrigin files, same.queries, same.search]

end Program.SameInterfaces

namespace Foreign.Registry

/-- Registries that give every module the same address. -/
def SameAddresses (first second : Registry) : Prop :=
  ∀ specifier, first.address? specifier = second.address? specifier

theorem SameAddresses.memberPath? {first second : Registry} (same : first.SameAddresses second) :
    first.memberPath? = second.memberPath? := by
  funext specifier member
  rw [Registry.memberPath?, Registry.memberPath?, same specifier]

end Foreign.Registry

end Haxify
