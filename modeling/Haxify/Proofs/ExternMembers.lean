import Haxify.Proofs.Renaming

/-!
# The statics of extern classes

An extern class declares a static for the default export of its module and for each member in
use, under the legal spelling of the member's name. The statics keep the exports apart exactly
when no two of their names are spelled alike.
-/

namespace Haxify.Foreign

open List

variable {descriptor : Descriptor} {static : Static} {statics : List Static}

/-- Names that are spelled alike. -/
def Collide (left right : String) : Prop :=
  Haxe.Lookalike left right ∨ Haxe.ReservedTwins left right ∨ Haxe.ReservedTwins right left

/-- The line that declares a static, with its name in the foreign module if it has another. -/
inductive Static.DeclaredBy : Static → Haxe.Code → Prop
  | own (name : String) : DeclaredBy ⟨name, none⟩ (.line ("static var " ++ name ++ ": Dynamic;"))
  | native (name native : String) : DeclaredBy ⟨name, some native⟩
      (.line ("@:native(" ++ Haxe.quote native ++ ") " ++ ("static var " ++ name ++ ": Dynamic;")))

def Static.foreignName (static : Static) : String := static.native?.getD static.name

namespace Descriptor

/-- The names of the exports in use, where the default export has its field as a name. -/
def names (descriptor : Descriptor) : List String :=
  (if descriptor.usesDefault then [Haxe.defaultMember] else []) ++ descriptor.members

/-- The exports in use; none is the default export. -/
def exports (descriptor : Descriptor) : List (Option String) :=
  (if descriptor.usesDefault then [none] else []) ++ descriptor.members.map some

/-- Whether exactly one of the statics has the name of a field, and leads to an export. -/
def Binds (descriptor : Descriptor) (field foreign : String) : Prop :=
  ∃ static, descriptor.statics.filter (·.name == field) = [static] ∧ static.foreignName = foreign

end Descriptor

theorem declaredBy_render (statics : List Static) :
    Forall₂ Static.DeclaredBy statics (statics.map fun static => .line static.render) := by
  refine forall₂_map_right_iff.mpr (forall₂_same.mpr fun static _ => ?_)
  obtain ⟨name, native?⟩ := static
  cases native? with
  | none => exact .own name
  | some native => exact .native name native

theorem sanitize_defaultMember : Haxe.sanitize Haxe.defaultMember = Haxe.defaultMember :=
  Haxe.sanitize_of_isIdentifier (by decide)

theorem map_name_statics (descriptor : Descriptor) :
    descriptor.statics.map Static.name = descriptor.names.map Haxe.sanitize := by
  rw [Descriptor.statics, Descriptor.names, map_append, map_append, map_map]
  congr 1
  split
  · rw [map_singleton, map_singleton, sanitize_defaultMember]
  · rfl

theorem exists_static_of_mem_exports {offered : Option String}
    (used : offered ∈ descriptor.exports) : ∃ static ∈ descriptor.statics,
      static.name = (offered.map bindingName).getD Haxe.defaultMember ∧
      static.foreignName = offered.getD "default" := by
  rcases mem_append.mp used with default | member
  · split at default
    · rename_i needed
      obtain rfl := mem_singleton.mp default
      refine ⟨⟨Haxe.defaultMember, some "default"⟩, ?_, rfl, rfl⟩
      exact mem_append_left _ (by rw [if_pos needed]; exact mem_singleton_self _)
    · cases default
  · obtain ⟨name, listed, rfl⟩ := mem_map.mp member
    refine ⟨.ofMember name, mem_append_right _ (mem_map_of_mem listed), rfl, ?_⟩
    rw [Static.foreignName, Static.ofMember]
    split
    · assumption
    · rfl

theorem exists_export_of_mem_statics
    (declared : static ∈ descriptor.statics) : ∃ offered ∈ descriptor.exports,
      static.name = (offered.map bindingName).getD Haxe.defaultMember := by
  rcases mem_append.mp declared with default | member
  · split at default
    · rename_i needed
      obtain rfl := mem_singleton.mp default
      exact ⟨none, mem_append_left _ (by rw [if_pos needed]; exact mem_singleton_self _), rfl⟩
    · cases default
  · obtain ⟨name, listed, rfl⟩ := mem_map.mp member
    exact ⟨some name, mem_append_right _ (mem_map_of_mem listed), rfl⟩

theorem filter_name_eq_singleton
    (distinct : (statics.map Static.name).Nodup) (declared : static ∈ statics) :
    statics.filter (·.name == static.name) = [static] := by
  induction statics with
  | nil => cases declared
  | cons first rest rest_filter =>
    rw [map_cons, nodup_cons] at distinct
    rw [filter_cons]
    rcases mem_cons.mp declared with rfl | later
    · have others : rest.filter (·.name == static.name) = [] := by
        refine filter_eq_nil_iff.mpr fun other member same => distinct.1 ?_
        exact eq_of_beq same ▸ mem_map_of_mem member
      rw [if_pos (beq_self_eq_true _), others]
    · have apart : first.name ≠ static.name := fun same =>
        distinct.1 (same ▸ mem_map_of_mem later)
      rw [if_neg (by simpa using apart), rest_filter distinct.2 later]

theorem nodup_of_filter_eq_singleton
    (single : ∀ static ∈ statics, ∃ only, statics.filter (·.name == static.name) = [only]) :
    (statics.map Static.name).Nodup := by
  rw [nodup_iff_count_le_one]
  intro name
  by_cases listed : name ∈ statics.map Static.name
  · obtain ⟨static, declared, rfl⟩ := mem_map.mp listed
    obtain ⟨only, filtered⟩ := single static declared
    rw [List.count, countP_map, countP_eq_length_filter]
    exact le_of_eq (congrArg List.length filtered)
  · rw [count_eq_zero_of_not_mem listed]
    exact Nat.zero_le 1

/-- An extern class has one line for each of its statics and no other. The statics have different
names exactly if no two exports in use collide, and exactly then every export is reached: the
field that its path names is declared once, with the name of the export in the foreign module. -/
theorem externs_keep_apart_iff (registry : Registry) (specifier : String) (binding : Binding)
    (found : registry.find? specifier = some binding) :
    (∃ lines, Forall₂ Static.DeclaredBy binding.descriptor.statics lines ∧
      ∀ indent, (binding.file indent).text = Haxe.Code.render indent
        (.line binding.address.declaration :: .line "" :: Haxe.Code.block
          ("@:jsRequire(" ++ Haxe.quote specifier ++ ") extern class " ++
            binding.address.moduleName) lines) ++ "\n") ∧
    ((binding.descriptor.statics.map Static.name).Nodup ↔
      binding.descriptor.names.Pairwise fun left right => ¬Collide left right) ∧
    ((∀ offered ∈ binding.descriptor.exports, ∃ field,
        registry.memberPath? specifier offered = some (binding.address.qualified ++ "." ++ field) ∧
        binding.descriptor.Binds field (offered.getD "default")) ↔
      binding.descriptor.names.Pairwise fun left right => ¬Collide left right) := by
  have collide (left right : String) : Haxe.sanitize left ≠ Haxe.sanitize right ↔
      ¬Collide left right := not_congr (Haxe.sanitize_eq_iff left right)
  have distinct : (binding.descriptor.statics.map Static.name).Nodup ↔
      binding.descriptor.names.Pairwise fun left right => ¬Collide left right := by
    rw [map_name_statics, List.Nodup, pairwise_map]
    exact ⟨.imp fun apart => (collide _ _).mp apart, .imp fun apart => (collide _ _).mpr apart⟩
  have path (offered : Option String) : registry.memberPath? specifier offered =
      some (binding.address.qualified ++ "." ++
        (offered.map bindingName).getD Haxe.defaultMember) := by
    rw [Registry.memberPath?, Registry.address?, found]
    rfl
  have same : binding.descriptor.specifier = specifier := by simpa using find?_some found
  refine ⟨⟨_, declaredBy_render _, fun indent => ?_⟩, distinct, fun reached => ?_,
    fun apart offered used => ?_⟩
  · rw [Binding.file, same]
    rfl
  · refine distinct.mp (nodup_of_filter_eq_singleton fun static declared => ?_)
    obtain ⟨offered, used, named⟩ := exists_export_of_mem_statics declared
    obtain ⟨field, same, only, filtered, -⟩ := reached offered used
    rw [path, Option.some_inj, String.append_right_inj] at same
    exact ⟨only, by rw [named, same, filtered]⟩
  · obtain ⟨static, declared, named, foreign⟩ := exists_static_of_mem_exports used
    exact ⟨_, path offered, static,
      named ▸ filter_name_eq_singleton (distinct.mpr apart) declared, foreign⟩

namespace Sample

def registry (uses : List Use) : Registry :=
  Registry.around "app" [] (recordAll (uses.map fun use => ("lib", use)))

def binding (usesDefault : Bool) (members : List String) : Binding :=
  ⟨⟨"lib", usesDefault, members⟩, ⟨"app.externs", "Lib"⟩⟩

end Sample

open Sample

theorem reserved_member_is_reached :
    (registry [.member "static", .default, .member "a-b"]).find? "lib" =
      some (binding true ["a-b", "static"]) ∧
    ∀ offered ∈ [none, some "a-b", some "static"], ∃ field,
      (registry [.member "static", .default, .member "a-b"]).memberPath? "lib" offered =
        some ("app.externs.Lib." ++ field) ∧
      (binding true ["a-b", "static"]).descriptor.Binds field (offered.getD "default") := by
  have found : (registry [.member "static", .default, .member "a-b"]).find? "lib" =
      some (binding true ["a-b", "static"]) := by decide
  obtain ⟨-, distinct, reached⟩ := externs_keep_apart_iff _ _ _ found
  exact ⟨found, reached.mpr (distinct.mp (by decide))⟩

/-- Members whose names differ in a sign that no name may have share a field, and so do a reserved
word and its legal spelling, and the default export and a member with the name of its field. -/
theorem colliding_members_share_fields :
    (binding false ["a-b", "a_b"]).descriptor.statics = [⟨"a_b", some "a-b"⟩, ⟨"a_b", none⟩] ∧
    (binding false ["static", "static_"]).descriptor.statics =
      [⟨"static_", some "static"⟩, ⟨"static_", none⟩] ∧
    (binding true ["__default"]).descriptor.statics =
      [⟨"__default", some "default"⟩, ⟨"__default", none⟩] ∧
    (registry [.member "a-b", .member "a_b"]).memberPath? "lib" (some "a-b") =
      some "app.externs.Lib.a_b" ∧
    (registry [.member "a-b", .member "a_b"]).memberPath? "lib" (some "a_b") =
      some "app.externs.Lib.a_b" := by
  decide

end Haxify.Foreign
