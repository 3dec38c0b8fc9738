import Haxify.Foreign.Extern
import Haxify.Proofs.OutputPath
import Mathlib.Data.List.Nodup
import Mathlib.Data.String.Basic

/-!
# What a registry holds

The modules in use are kept in the order of their specifiers, so every specifier has one
descriptor, and this holds exactly the uses recorded for it. Each module is then given a
name that is not taken, in the one package of the extern classes.
-/

namespace Haxify.Foreign

open List
open Registry (assign packageOf)

variable {module : Descriptor} {uses : List (String × Use)} {package : String}
variable {modules : List Descriptor} {taken : List String} {specifier : String} {binding : Binding}

@[simp] theorem specifier_adding (module : Descriptor) (use : Use) :
    (module.adding use).specifier = module.specifier := by
  cases use <;> rfl

theorem mem_insertSorted {text other : String} {texts : List String} :
    other ∈ insertSorted text texts ↔ other = text ∨ other ∈ texts := by
  induction texts with
  | nil => simp [insertSorted]
  | cons first rest rest_iff =>
    rw [insertSorted]
    split
    · rename_i same
      simp [same]
    · split
      · simp
      · rw [mem_cons, rest_iff, mem_cons]
        exact or_left_comm

theorem usesDefault_adding (module : Descriptor) (use : Use) :
    (module.adding use).usesDefault ↔ module.usesDefault ∨ use = .default := by
  cases use <;> simp [Descriptor.adding]

theorem mem_members_adding (module : Descriptor) (use : Use) (name : String) :
    name ∈ (module.adding use).members ↔ name ∈ module.members ∨ use = .member name := by
  cases use with
  | whole | default => simp [Descriptor.adding]
  | member added =>
    rw [Descriptor.adding, mem_insertSorted, or_comm, Use.member.injEq, eq_comm]

theorem sorted_members_adding (sorted : module.members.Pairwise (· < ·))
    (use : Use) : (module.adding use).members.Pairwise (· < ·) := by
  have inserted {text : String} {texts : List String} (sorted : texts.Pairwise (· < ·)) :
      (insertSorted text texts).Pairwise (· < ·) := by
    induction texts with
    | nil => exact pairwise_singleton _ _
    | cons first rest rest_sorted =>
      obtain ⟨behind, ordered⟩ := pairwise_cons.mp sorted
      rw [insertSorted]
      split
      · exact sorted
      rename_i other
      split
      · rename_i before
        exact pairwise_cons.mpr ⟨forall_mem_cons.mpr
          ⟨before, fun later member => before.trans (behind later member)⟩, sorted⟩
      · rename_i notBefore
        refine pairwise_cons.mpr ⟨fun later member => ?_, rest_sorted ordered⟩
        rcases mem_insertSorted.mp member with rfl | known
        · exact lt_of_le_of_ne (not_lt.mp notBefore) (Ne.symm other)
        · exact behind later known
  cases use with
  | member name => exact inserted sorted
  | _ => exact sorted

/-- Modules in the order of their specifiers, each once. -/
def Sorted (modules : List Descriptor) : Prop :=
  modules.Pairwise fun left right => left.specifier < right.specifier

def recordedIn (specifier : String) (modules : List Descriptor) : Descriptor :=
  (modules.find? (·.specifier == specifier)).getD (.empty specifier)

theorem specifier_recordedIn (specifier : String) (modules : List Descriptor) :
    (recordedIn specifier modules).specifier = specifier := by
  rw [recordedIn]
  cases found : modules.find? (·.specifier == specifier) with
  | none => rfl
  | some module =>
    have same := find?_some found
    exact eq_of_beq same

theorem mem_record {use : Use} (sorted : Sorted modules) :
    module ∈ record specifier use modules ↔
      module ∈ modules ∧ module.specifier ≠ specifier ∨
        module = (recordedIn specifier modules).adding use := by
  induction modules with
  | nil => simp [record, recordedIn]
  | cons first rest rest_iff =>
    obtain ⟨behind, rest_sorted⟩ := pairwise_cons.mp sorted
    rw [record]
    split
    · rename_i same
      have found : recordedIn specifier (first :: rest) = first := by
        rw [recordedIn, find?_cons_of_pos (by simp [same])]
        rfl
      have others : ∀ other ∈ rest, other.specifier ≠ specifier := fun other member equal =>
        absurd (behind other member) (by rw [equal, same]; exact lt_irrefl _)
      rw [found, mem_cons, mem_cons]
      constructor
      · rintro (rfl | later)
        · exact .inr rfl
        · exact .inl ⟨.inr later, others module later⟩
      · rintro (⟨rfl | later, other⟩ | rfl)
        · exact absurd same.symm other
        · exact .inr later
        · exact .inl rfl
    · rename_i other
      split
      · rename_i before
        have none : ∀ known ∈ first :: rest, known.specifier ≠ specifier := by
          intro known member equal
          rcases mem_cons.mp member with rfl | later
          · exact other equal.symm
          · exact absurd (before.trans (behind known later)) (by rw [equal]; exact lt_irrefl _)
        have found : recordedIn specifier (first :: rest) = .empty specifier := by
          rw [recordedIn, find?_eq_none.mpr fun known member => by
            simpa using none known member]
          rfl
        rw [found, mem_cons, or_comm]
        exact or_congr_left ⟨fun member => ⟨member, none module member⟩, And.left⟩
      · have found : recordedIn specifier (first :: rest) = recordedIn specifier rest := by
          rw [recordedIn, recordedIn, find?_cons_of_neg (by simpa using Ne.symm other)]
        rw [found, mem_cons, rest_iff rest_sorted, mem_cons]
        constructor
        · rintro (rfl | ⟨later, apart⟩ | new)
          · exact .inl ⟨.inl rfl, Ne.symm other⟩
          · exact .inl ⟨.inr later, apart⟩
          · exact .inr new
        · rintro (⟨rfl | later, apart⟩ | new)
          · exact .inl rfl
          · exact .inr (.inl ⟨later, apart⟩)
          · exact .inr (.inr new)

theorem sorted_record {use : Use} (sorted : Sorted modules) :
    Sorted (record specifier use modules) := by
  induction modules with
  | nil => exact pairwise_singleton _ _
  | cons first rest rest_sorted =>
    obtain ⟨behind, ordered⟩ := pairwise_cons.mp sorted
    rw [record]
    split
    · exact pairwise_cons.mpr ⟨fun other member => by
        rw [specifier_adding]; exact behind other member, ordered⟩
    · rename_i other
      split
      · rename_i before
        refine pairwise_cons.mpr ⟨fun known member => ?_, sorted⟩
        rw [specifier_adding]
        rcases mem_cons.mp member with rfl | later
        · exact before
        · exact before.trans (behind known later)
      · rename_i notBefore
        have after : first.specifier < specifier :=
          lt_of_le_of_ne (not_lt.mp notBefore) (Ne.symm other)
        refine pairwise_cons.mpr ⟨fun known member => ?_, rest_sorted ordered⟩
        rcases (mem_record ordered).mp member with ⟨later, _⟩ | rfl
        · exact behind known later
        · rw [specifier_adding, specifier_recordedIn]
          exact after

/-- Modules that hold exactly some uses. -/
structure Records (uses : List (String × Use)) (modules : List Descriptor) : Prop where
  sorted : Sorted modules
  listed : ∀ specifier use, (specifier, use) ∈ uses →
    ∃ module ∈ modules, module.specifier = specifier
  used : ∀ module ∈ modules, ∃ use, (module.specifier, use) ∈ uses
  /-- A default export is marked exactly if it is used. -/
  default : ∀ module ∈ modules, (module.usesDefault ↔ (module.specifier, .default) ∈ uses)
  member : ∀ module ∈ modules, ∀ name,
    (name ∈ module.members ↔ (module.specifier, .member name) ∈ uses)
  ordered : ∀ module ∈ modules, module.members.Pairwise (· < ·)

theorem Records.recordedIn (records : Records uses modules) (specifier : String) :
    ((recordedIn specifier modules).usesDefault ↔ (specifier, .default) ∈ uses) ∧
      (∀ name, (name ∈ (recordedIn specifier modules).members ↔ (specifier, .member name) ∈ uses)) ∧
      (recordedIn specifier modules).members.Pairwise (· < ·) := by
  rw [Foreign.recordedIn]
  cases found : modules.find? (·.specifier == specifier) with
  | some module =>
    have known := mem_of_find?_eq_some found
    have same : module.specifier = specifier := by
      have equal := find?_some found
      exact eq_of_beq equal
    rw [← same]
    exact ⟨records.default module known, records.member module known, records.ordered module known⟩
  | none =>
    have unused (use : Use) : (specifier, use) ∉ uses := by
      intro member
      obtain ⟨module, known, same⟩ := records.listed specifier use member
      exact absurd same (by simpa using find?_eq_none.mp found module known)
    simp [Descriptor.empty, unused]

theorem Records.record (records : Records uses modules) (specifier : String) (use : Use) :
    Records (uses ++ [(specifier, use)]) (record specifier use modules) := by
  obtain ⟨default_iff, member_iff, ascending⟩ := records.recordedIn specifier
  have same : ((Foreign.recordedIn specifier modules).adding use).specifier = specifier := by
    rw [specifier_adding, specifier_recordedIn]
  refine ⟨sorted_record records.sorted, ?_, ?_, ?_, ?_, ?_⟩
  · intro other action member
    rcases mem_append.mp member with before | new
    · obtain ⟨module, known, equal⟩ := records.listed other action before
      by_cases here : other = specifier
      · exact ⟨_, (mem_record records.sorted).mpr (.inr rfl), same.trans here.symm⟩
      · exact ⟨module, (mem_record records.sorted).mpr (.inl ⟨known, equal ▸ here⟩), equal⟩
    · cases mem_singleton.mp new
      exact ⟨_, (mem_record records.sorted).mpr (.inr rfl), same⟩
  · intro module member
    rcases (mem_record records.sorted).mp member with ⟨known, _⟩ | rfl
    · obtain ⟨action, before⟩ := records.used module known
      exact ⟨action, mem_append_left _ before⟩
    · rw [same]
      exact ⟨use, mem_append_right _ (mem_singleton.mpr rfl)⟩
  · intro module member
    rcases (mem_record records.sorted).mp member with ⟨known, apart⟩ | rfl
    · rw [records.default module known]
      simp [apart]
    · rw [same, usesDefault_adding, default_iff]
      simp [eq_comm]
  · intro module member name
    rcases (mem_record records.sorted).mp member with ⟨known, apart⟩ | rfl
    · rw [records.member module known]
      simp [apart]
    · rw [same, mem_members_adding, member_iff]
      simp [eq_comm]
  · intro module member
    rcases (mem_record records.sorted).mp member with ⟨known, _⟩ | rfl
    · exact records.ordered module known
    · exact sorted_members_adding ascending use

theorem records_recordAll (uses : List (String × Use)) : Records uses (recordAll uses) := by
  have behind (rest done : List (String × Use)) (modules : List Descriptor)
      (before : Records done modules) :
      Records (done ++ rest)
        (rest.foldl (fun modules (use : String × Use) => record use.1 use.2 modules) modules) := by
    induction rest generalizing done modules with
    | nil =>
      rw [append_nil]
      exact before
    | cons use others others_recorded =>
      have all := others_recorded _ _ (before.record use.1 use.2)
      rwa [append_assoc, singleton_append] at all
  have start : Records [] [] := by
    refine ⟨List.Pairwise.nil, ?_, ?_, ?_, ?_, ?_⟩ <;> simp
  exact behind uses [] [] start

theorem map_descriptor_assign (package : String) (taken : List String) (modules : List Descriptor) :
    (assign package taken modules).map (·.descriptor) = modules := by
  induction modules generalizing taken with
  | nil => rfl
  | cons module rest rest_map => rw [assign, map_cons, rest_map]

theorem find?_eq_some_iff {registry : Registry}
    (sorted : Sorted (registry.bindings.map (·.descriptor))) :
    registry.find? specifier = some binding ↔
      binding ∈ registry.bindings ∧ binding.descriptor.specifier = specifier := by
  have found_of {other : Binding} (found : registry.find? specifier = some other) :
      other ∈ registry.bindings ∧ other.descriptor.specifier = specifier := by
    have same := find?_some found
    exact ⟨mem_of_find?_eq_some found, eq_of_beq same⟩
  refine ⟨found_of, ?_⟩
  rintro ⟨member, rfl⟩
  cases outcome : registry.find? binding.descriptor.specifier with
  | none =>
    rw [Registry.find?] at outcome
    exact absurd (beq_self_eq_true _) (find?_eq_none.mp outcome binding member)
  | some other =>
    obtain ⟨known, same⟩ := found_of outcome
    have distinct : (registry.bindings.map (·.descriptor.specifier)).Nodup := by
      have apart := pairwise_map.mp sorted
      exact pairwise_map.mpr (apart.imp fun before => ne_of_lt before)
    rw [inj_on_of_nodup_map distinct known member same]

theorem isAlphanum_of_mem_freshName {base : String} (word : ∀ char ∈ base.toList, char.isAlphanum)
    {char : Char} (member : char ∈ (Text.freshName base taken).toList) : char.isAlphanum := by
  rw [Text.freshName] at member
  split at member
  · rw [String.toList_append, mem_append, Nat.toString_eq_ofList_toDigits,
      String.toList_ofList] at member
    rcases member with own | digit
    · exact word char own
    · simp [Char.isAlphanum, Nat.isDigit_of_mem_toDigits (by decide) (by decide) digit]
  · exact word char member

theorem named_of_mem_assign (member : binding ∈ assign package taken modules) :
    binding.address.packagePath = package ∧ binding.address.moduleName ∉ taken ∧
      ∀ char ∈ binding.address.moduleName.toList, char.isAlphanum := by
  induction modules generalizing taken with
  | nil => cases member
  | cons first rest rest_mem =>
    rw [assign] at member
    rcases mem_cons.mp member with rfl | later
    · exact ⟨rfl, Text.freshName_not_mem _ _, fun char inside =>
        isAlphanum_of_mem_freshName (fun _ => Haxe.isAlphanum_of_mem_moduleName) inside⟩
    · obtain ⟨inside, free, word⟩ := rest_mem later
      exact ⟨inside, fun known => free (.tail _ known), word⟩

theorem mem_assign (member : binding ∈ assign package taken modules) :
    binding.address.packagePath = package ∧ binding.address.moduleName ∉ taken ∧
      '/' ∉ binding.address.moduleName.toList := by
  obtain ⟨inside, free, word⟩ := named_of_mem_assign member
  exact ⟨inside, free, fun slash => absurd (word '/' slash) (by decide)⟩

theorem nodup_assign (package : String) (taken : List String) (modules : List Descriptor) :
    ((assign package taken modules).map (·.address)).Nodup := by
  induction modules generalizing taken with
  | nil => exact nodup_nil
  | cons descriptor rest rest_nodup =>
    rw [assign, map_cons, nodup_cons]
    refine ⟨fun member => ?_, rest_nodup _⟩
    obtain ⟨binding, listed, same⟩ := mem_map.mp member
    have free := (mem_assign listed).2.1
    rw [same] at free
    exact free (.head _)

theorem packageOf_below {basePackage name : String} (plain : '/' ∉ name.toList) :
    Haxe.Address.Below basePackage ⟨packageOf basePackage, name⟩ := by
  refine ⟨["externs"], ?_, ?_, plain⟩
  · rw [Haxe.Address.segments, packageOf, Haxe.segments_packagePath,
      flatMap_append]
    rfl
  · intro segment member
    rw [mem_singleton.mp member]
    exact ⟨by decide, by decide, by decide, by decide⟩

theorem packageOf_clean (basePackage name : String) :
    Text.joinWith "." (Haxe.Address.segments ⟨packageOf basePackage, name⟩) =
      packageOf basePackage := by
  apply Haxe.Address.joinWith_segments
  apply Haxe.Address.packagePath_clean
  intro part member
  rcases mem_append.mp member with base | last
  · exact Haxe.Address.cleanPart_of_mem_splitOn base
  · rw [mem_singleton.mp last]
    exact .inr (by decide)

end Haxify.Foreign
