import Haxify.Proofs.Registry

/-!
# Names of extern classes

The modules in use are named in the order of their specifiers. Each gets the name of its
specifier if that is free, and otherwise the first free one with a number behind it. What is
recorded does not depend on the order of the uses or on how often they occur, and so neither do
the names.
-/

namespace Haxify

open List

namespace Text

variable {name : Nat → String} {taken : List String} {start number : Nat}

theorem mem_of_lt_leastFree (from_start : start ≤ number)
    (before : number < leastFree name taken start) : name number ∈ taken := by
  fun_induction leastFree name taken start with
  | case1 taken start member later =>
    rcases Nat.eq_or_lt_of_le from_start with rfl | behind
    · exact member
    · exact mem_of_mem_erase (later behind before)
  | case2 taken start _ => omega

theorem leastFree_le (name : Nat → String) (taken : List String) (start : Nat) :
    leastFree name taken start ≤ start + taken.length := by
  fun_induction leastFree name taken start with
  | case1 taken start member bound =>
    have shorter := length_erase_of_mem member
    have some := length_pos_of_mem member
    omega
  | case2 taken start _ => exact Nat.le_add_right start _

/-- A name is the base if that is free. Otherwise it is the base with the least number from two
on behind it that is free, which is found after no more numbers than there are names taken. -/
def IsFirstFree (base : String) (taken : List String) (name : String) : Prop :=
  base ∉ taken ∧ name = base ∨
    base ∈ taken ∧ ∃ number, 2 ≤ number ∧ number ≤ taken.length + 2 ∧
      name = base ++ toString number ∧ base ++ toString number ∉ taken ∧
      ∀ smaller, 2 ≤ smaller → smaller < number → base ++ toString smaller ∈ taken

theorem isFirstFree_freshName (base : String) (taken : List String) :
    IsFirstFree base taken (freshName base taken) := by
  have free := freshName_not_mem base taken
  rw [freshName] at free ⊢
  split
  · rename_i occupied
    rw [if_pos occupied] at free
    refine .inr ⟨occupied, _, le_leastFree _ _ _, ?_, rfl, free, fun smaller from_two before => ?_⟩
    · rw [Nat.add_comm]
      exact leastFree_le _ _ _
    · exact mem_of_lt_leastFree from_two before
  · rename_i open_
    exact .inl ⟨open_, rfl⟩

end Text

namespace Foreign

variable {modules others : List Descriptor} {uses : List (String × Use)}

theorem isFirstFree_of_assign {package : String} {taken : List String} {before after : List Binding}
    {binding : Binding}
    (given : Registry.assign package taken modules = before ++ binding :: after) :
    Text.IsFirstFree (Haxe.moduleName binding.descriptor.specifier)
      ((before.map (·.address.moduleName)).reverse ++ taken) binding.address.moduleName := by
  induction modules generalizing taken before with
  | nil => cases before <;> cases given
  | cons module rest rest_given =>
    rw [Registry.assign] at given
    cases before with
    | nil =>
      obtain ⟨rfl, _⟩ := List.cons.inj given
      exact Text.isFirstFree_freshName _ _
    | cons first earlier =>
      obtain ⟨rfl, later⟩ := List.cons.inj given
      have found := rest_given later
      rw [map_cons, reverse_cons, append_assoc]
      exact found

theorem eq_of_sorted {texts other : List String} (sorted : texts.Pairwise (· < ·))
    (other_sorted : other.Pairwise (· < ·)) (same : ∀ text, text ∈ texts ↔ text ∈ other) :
    texts = other := by
  have permuted : texts.Perm other :=
    (perm_ext_iff_of_nodup (sorted.imp ne_of_lt) (other_sorted.imp ne_of_lt)).mpr same
  exact permuted.eq_of_pairwise (fun _ _ _ _ less more => absurd (less.trans more) (lt_irrefl _))
    sorted other_sorted

theorem Records.eq {other : List (String × Use)} (records : Records uses modules)
    (other_records : Records other others) (same : ∀ use, use ∈ uses ↔ use ∈ other) :
    modules = others := by
  have inside {uses other : List (String × Use)} {modules others : List Descriptor}
      (records : Records uses modules) (other_records : Records other others)
      (same : ∀ use, use ∈ uses ↔ use ∈ other) : ∀ module ∈ modules, module ∈ others := by
    intro module member
    obtain ⟨use, used⟩ := records.used module member
    obtain ⟨twin, listed, equal⟩ := other_records.listed _ _ ((same _).mp used)
    have default : module.usesDefault = twin.usesDefault := by
      rw [Bool.eq_iff_iff, records.default module member, other_records.default twin listed, equal,
        same]
    have members : module.members = twin.members :=
      eq_of_sorted (records.ordered module member)
        (other_records.ordered twin listed) fun name => by
        rw [records.member module member, other_records.member twin listed, equal, same]
    obtain ⟨specifier, usesDefault, names⟩ := module
    obtain ⟨_, _, _⟩ := twin
    cases equal
    cases default
    cases members
    exact listed
  have distinct {modules : List Descriptor} (sorted : Sorted modules) : modules.Nodup :=
    sorted.imp fun less equal => absurd (equal ▸ less) (lt_irrefl _)
  have permuted : modules.Perm others :=
    (perm_ext_iff_of_nodup (distinct records.sorted) (distinct other_records.sorted)).mpr
      fun module => ⟨inside records other_records same module,
        inside other_records records (fun use => (same use).symm) module⟩
  exact permuted.eq_of_pairwise (fun _ _ _ _ less more => absurd (less.trans more) (lt_irrefl _))
    records.sorted other_records.sorted

/-- For every sequence of uses, each specifier in use is bound once, in the order of specifiers,
to a name in the package of the externs. The names are distinct, keep clear of the claimed
addresses, and each is the first one free that belongs to its specifier. Any other sequence of the
same uses gives the same registry. -/
theorem extern_names_are_first_free (uses : List (String × Use)) (basePackage : String)
    (claimed : List Haxe.Address) :
    let package := Haxe.packagePath (Text.splitOn '.' basePackage ++ ["externs"])
    let taken := (claimed.filter (·.packagePath == package)).map (·.moduleName)
    let bindings := (Registry.around basePackage claimed (recordAll uses)).bindings
    (∀ specifier, (∃ use, (specifier, use) ∈ uses) ↔
      specifier ∈ bindings.map (·.descriptor.specifier)) ∧
    (bindings.map (·.descriptor.specifier)).Pairwise (· < ·) ∧
    (∀ binding ∈ bindings, binding.address.packagePath = package ∧
      binding.address.moduleName ∉ taken) ∧
    (bindings.map (·.address.moduleName)).Nodup ∧
    (∀ before binding after, bindings = before ++ binding :: after →
      Text.IsFirstFree (Haxe.moduleName binding.descriptor.specifier)
        ((before.map (·.address.moduleName)).reverse ++ taken) binding.address.moduleName) ∧
    ∀ other, (∀ use, use ∈ uses ↔ use ∈ other) →
      Registry.around basePackage claimed (recordAll uses) =
        Registry.around basePackage claimed (recordAll other) := by
  intro package taken bindings
  have records := records_recordAll uses
  have modules : bindings.map (·.descriptor) = recordAll uses := map_descriptor_assign _ _ _
  have specifiers : bindings.map (·.descriptor.specifier) = (recordAll uses).map (·.specifier) := by
    rw [← modules, map_map]
    rfl
  have named (binding : Binding) (member : binding ∈ bindings) := mem_assign member
  refine ⟨fun specifier => ?_, ?_, fun binding member => ⟨(named _ member).1, (named _ member).2.1⟩,
    ?_, fun before binding after => isFirstFree_of_assign, fun other same => ?_⟩
  · rw [specifiers, mem_map]
    constructor
    · rintro ⟨use, used⟩
      exact records.listed specifier use used
    · rintro ⟨module, member, rfl⟩
      exact records.used module member
  · rw [specifiers]
    exact pairwise_map.mpr records.sorted
  · have distinct := nodup_assign package taken (recordAll uses)
    have addresses : bindings.map (·.address) =
        (bindings.map (·.address.moduleName)).map (⟨package, ·⟩) := by
      rw [map_map]
      refine map_congr_left fun binding member => ?_
      have placed : binding.address.packagePath = package := (named binding member).1
      rw [Function.comp_apply, ← placed]
    have apart : (bindings.map (·.address)).Nodup := distinct
    rw [addresses] at apart
    exact apart.of_map _
  · rw [records.eq (records_recordAll other) same]

/-- Three specifiers with one base name, two of them used twice, next to a claimed module. -/
theorem repeated_uses_are_named_once :
    let around := fun uses => Registry.around "app" [⟨"app.externs", "AB2"⟩] (recordAll uses)
    let uses := [("a_b", .whole), ("a-b", .default), ("a.b", .whole), ("a_b", .whole),
      ("a-b", .default)]
    around uses = around [("a.b", .whole), ("a_b", .whole), ("a-b", .default)] ∧
      (around uses).bindings.map (·.descriptor.specifier) = ["a-b", "a.b", "a_b"] ∧
      (around uses).bindings.map (·.address.moduleName) = ["AB", "AB3", "AB4"] := by
  refine ⟨(extern_names_are_first_free _ _ _).2.2.2.2.2 _ fun use => ?_, by decide +kernel,
    by decide +kernel⟩
  simp only [mem_cons, not_mem_nil]
  tauto

end Foreign

end Haxify
