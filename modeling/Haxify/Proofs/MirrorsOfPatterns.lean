import Haxify.Proofs.Twins

/-!
# Names and patterns of a copy

A name that is a value is spelled in the copy as in the tree. A pattern binds the same names, or
assigns to the same targets: a short property that is assigned to may be written out in the copy,
since its key stays and its target is renamed.
-/

namespace Haxify.Lower

open Lowering List
open TypeScript (Node Tree)
open TypeScript.Scope

variable {name : String} {default defaultCopy child : Part} {place : Place}
variable {kinds : String × String} {nodes : List Node}
variable {swap : Swap} {bound : Bool} {tree : Node} {part copy : Part}

section Names

theorem Swap.name_beq (swap : Swap) {known : String}
    (listed : known ∈ "undefined" :: globalValues) (name : String) :
    (swap.name bound name == known) = (name == known) := by
  have notOld : (swap.old == known) = false := by
    rw [beq_eq_false_iff_ne]
    exact fun same => swap.fits.old (same ▸ listed)
  have notNew : (swap.new == known) = false := by
    rw [beq_eq_false_iff_ne]
    exact fun same => swap.fits.new (same ▸ listed)
  rw [Rename.name]
  split
  · rename_i free
    simp only [Bool.and_eq_true, beq_iff_eq] at free
    rw [free.2, notOld, notNew]
  · rfl

theorem mirrors_nameValue (unused : part.text ≠ swap.new)
    (text : copy.text = swap.name bound part.text) :
    Echoes swap bound (nameValue part) (nameValue copy) := by
  unfold nameValue
  dsimp only
  rw [text, swap.name_beq (by simp)]
  split
  · exact mirrors_pure rfl
  refine mirrors_view fun first second views => ?_
  rw [views.spelling?_name unused]
  cases spelled : first.spelling? part.text with
  | none =>
    rw [views.name_of_spelling?_eq_none spelled]
    exact mirrors_pure rfl
  | some spelling =>
    cases spelling with
    | foreign path | foreignModule path => exact mirrors_pure rfl
    | _ => exact mirrors_refusal

end Names

section Patterns

variable {mode : BindingMode} {other : Node}

theorem Copied.text_declared (copied : Copied swap .declared bound tree part copy) :
    copy.text = part.text := by
  rw [copied.copy_eq, copied.part_eq, text_rendered, text_rendered, Tree.text, enter, token_resolve]
  rfl

theorem Copied.target (copied : Copied swap .assigned bound tree part copy)
    (other : part.kind ∉ targetKinds) : Copied swap .code bound tree part copy := by
  refine ⟨copied.reflected, copied.part_eq, ?_⟩
  have settles : settled .assigned tree = .code := by
    rw [copied.kind_part] at other
    simp [settled, other]
  rw [copied.copy_eq, enter, enter, enters, enters, settles]
  rfl

theorem Copied.text_assigned (copied : Copied swap .assigned bound tree part copy)
    (isName : isBindingName part) : copy.text = swap.name bound part.text := by
  simp only [isBindingName, Bool.or_eq_true, beq_iff_eq] at isName
  rcases isName with isName | isShort
  · exact ((copied.target (by rw [isName]; decide)).code isName (by decide)).text (.inl isName)
  · rw [copied.kind_part] at isShort
    have kind : tree.token.kind = "shorthand_property_identifier_pattern" := isShort
    have settles : settled .assigned tree = .assigned := by
      simp [settled, isShort, targetKinds]
    have quiet : enters swap.old .assigned tree = false := by simp [enters, settles]
    rw [copied.copy_eq, copied.part_eq, text_rendered, text_rendered, enter,
      settles, quiet, Tree.text, token_resolve, Bool.or_false]
    simp only [renamed, isValue, Rename.name, kind, beq_self_eq_true, Bool.true_and]
    rfl

theorem or_binds_assignment :
    (bound || BindingMode.assignment.place.binds swap.old tree) = bound := by
  simp [BindingMode.place, Place.binds]

theorem mirrors_bindName (copied : Copied swap mode.place bound tree part copy)
    (isName : isBindingName part) (reading : Reading) :
    Rebinds swap bound (mode.place.binds swap.old tree)
      (bindName mode part reading) (bindName mode copy reading) := by
  have text := copied.text_part
  have unused : part.text ≠ swap.new := text ▸ copied.reflected.top.unused
  have binds : patternBinds swap.old tree = (part.text == swap.old) := by
    rw [text]
    refine patternBinds_name ?_
    rw [← copied.kind_part]
    simpa [isBindingName] using isName
  have declares (isConstant : Bool) (copied : Copied swap .declared bound tree part copy) :
      Rebinds swap bound (Place.declared.binds swap.old tree)
        (do bindLocal part.text; return [BindingStep.declare isConstant part.text reading])
        (do bindLocal copy.text; return [BindingStep.declare isConstant copy.text reading]) := by
    rw [copied.text_declared, Place.binds_declared, binds]
    exact mirrors_map (mirrors_bindLocal unused)
  cases mode with
  | «variable» => exact declares false copied
  | constant => exact declares true copied
  | assignment =>
    rw [Rebinds, or_binds_assignment]
    exact mirrors_map (mirrors_nameValue unused (copied.text_assigned isName))

theorem isBindingName_congr (same : copy.kind = part.kind) :
    isBindingName copy = isBindingName part := by
  rw [isBindingName, same, isBindingName]

theorem isMemberTarget_congr (same : copy.kind = part.kind) :
    isMemberTarget copy = isMemberTarget part := by
  rw [isMemberTarget, same, isMemberTarget]

theorem isPattern_congr (same : copy.kind = part.kind) : isPattern copy = isPattern part := by
  rw [isPattern, same, isPattern]

theorem binds_of_ne_assignment (declares : mode ≠ .assignment) :
    mode.place.binds swap.old tree = patternBinds swap.old tree := by
  cases mode with
  | assignment => exact absurd rfl declares
  | _ => exact congrFun (Place.binds_declared swap.old) tree

variable (copied : Copied swap mode.place bound tree part copy)
include copied

theorem mirrors_bindTarget (reading : Reading) :
    Rebinds swap bound (mode.place.binds swap.old tree)
      (bindTarget mode part reading) (bindTarget mode copy reading) := by
  rw [bindTarget, bindTarget, isBindingName_congr copied.kind, isMemberTarget_congr copied.kind,
    isPattern_congr copied.kind]
  split
  · exact mirrors_bindName copied ‹_› reading
  split
  · rename_i isMember
    simp only [Bool.and_eq_true, decide_eq_true_eq, isMemberTarget, Bool.or_eq_true,
      beq_iff_eq] at isMember
    obtain ⟨kind, rfl⟩ := isMember
    have other : part.kind ∉ targetKinds := by
      rcases kind with kind | kind <;> rw [kind] <;> decide
    rw [Rebinds, or_binds_assignment]
    exact mirrors_map (copied.target other).expression
  · split
    · refine mirrors_next mirrors_freshTemp fun temp => ?_
      exact mirrors_map (copied.unpack temp)
    · exact mirrors_refusal

theorem mirrors_bindWithDefault (reading : Reading)
    (defaults : Copied swap .code bound other default defaultCopy) :
    Rebinds swap bound (mode.place.binds swap.old tree)
      (bindWithDefault mode part reading default)
        (bindWithDefault mode copy reading defaultCopy) := by
  unfold bindWithDefault
  refine mirrors_next mirrors_freshTemp fun temp => ?_
  refine mirrors_next defaults.expression fun fallback => ?_
  rw [isPattern_congr copied.kind]
  split
  · exact mirrors_map (copied.unpack temp)
  · exact mirrors_map (mirrors_bindTarget copied _)

omit copied in
theorem BindingMode.place_mem (mode : BindingMode) : mode.place ∈ patternPlaces := by
  cases mode <;> decide

/-- A pattern that is assigned to or declared is one where it stands. -/
theorem Copied.pattern (isTarget : part.kind ∈ targetKinds) :
    Twins swap mode.place bound tree part copy := by
  rw [copied.kind_part] at isTarget
  have settles : settled mode.place tree = mode.place := by simp [settled, isTarget]
  have quiet : enters swap.old mode.place tree = false := by
    rw [enters, settles]
    cases mode <;> rfl
  have twins := copied.twins
  rw [settles, quiet, Bool.or_false] at twins
  exact twins

omit copied in
theorem Copied.eq_of_inert (copied : Copied swap .inert bound tree part copy) : copy = part := by
  rw [copied.copy_eq, enter_inert, copied.part_eq]

omit copied in
theorem Twins.patternField {sort : String} {inner : Place} (slot : String)
    (twins : Twins swap mode.place bound tree part copy) (same : part.kind = sort)
    (isPart : sort ∈ ["pair_pattern", "assignment_pattern", "object_assignment_pattern"])
    (there : patternPlace mode.place sort slot = inner) :
    swap.Becomes mode.place bound tree slot inner bound := by
  rw [twins.source.kind] at same
  rw [Swap.Becomes, field?_pattern mode.place_mem (by rw [same]; exact isPart), same, there]

theorem mirrors_bindDefaulted (isDefault : part.kind = "assignment_pattern") (reading : Reading) :
    Rebinds swap bound (mode.place.binds swap.old tree)
      (bindDefaulted mode part reading) (bindDefaulted mode copy reading) := by
  have twins := copied.pattern (by rw [isDefault]; decide)
  have target := twins.patternField "left" isDefault (by decide) rfl
  have value := twins.patternField "right" isDefault (by decide) rfl
  unfold bindDefaulted
  refine twins.each target mirrors_refusal fun {left _ _} foundLeft leftCopied => ?_
  refine twins.each value mirrors_refusal fun _ rightCopied => ?_
  have binds : mode.place.binds swap.old tree = mode.place.binds swap.old left := by
    rw [copied.kind_part] at isDefault
    rw [Place.binds, patternBinds_default (.inl isDefault), foundLeft]
    rfl
  rw [binds]
  exact mirrors_bindWithDefault leftCopied reading rightCopied

theorem mirrors_bindEither (reading : Reading) :
    Rebinds swap bound (mode.place.binds swap.old tree)
      (bindEither mode part reading) (bindEither mode copy reading) := by
  rw [bindEither, bindEither, copied.kind]
  split
  · exact mirrors_bindDefaulted copied (eq_of_beq ‹_›) reading
  · exact mirrors_bindTarget copied reading

omit copied in
theorem mirrors_patternKey (key : Part) : Echoes swap bound (patternKey key) (patternKey key) := by
  unfold patternKey
  split
  iterate 3 exact mirrors_pure rfl
  all_goals exact mirrors_refusal

theorem Copied.rest (isRest : part.kind = "rest_pattern") : part.first? = some child →
    ∃ node twin, mode.place.binds swap.old tree = mode.place.binds swap.old node ∧
      copy.first? = some twin ∧ Copied swap mode.place bound node child twin := by
  have twins := copied.pattern (by rw [isRest]; decide)
  rw [copied.kind_part] at isRest
  rw [Place.binds, patternBinds_rest isRest]
  refine twins.eachFirst (children_rest mode.place_mem isRest) (by simp) fun _ copied found => ?_
  exact ⟨_, _, rfl, rfl, Option.some.inj found ▸ copied⟩

theorem mirrors_objectRest (temp : String) (claimed : List String)
    (isRest : part.kind = "rest_pattern") :
    Rebinds swap bound (mode.place.binds swap.old tree)
      (objectRest mode temp claimed part) (objectRest mode temp claimed copy) := by
  unfold objectRest
  split
  · exact mirrors_refusal
  rename_i target found
  obtain ⟨node, twin, binds, foundTwin, inner⟩ := copied.rest isRest found
  rw [foundTwin, binds]
  refine mirrors_next mirrors_freshTemp fun rest => ?_
  exact mirrors_map (mirrors_bindTarget inner _)

omit copied in
theorem Rename.name_of_ne (kept : name ≠ swap.old ∨ bound = true) :
    swap.name bound name = name := by
  rw [Rename.name]
  rcases kept with other | rfl
  · simp [other]
  · rfl

theorem Copied.text_of_ne (isName : isBindingName part)
    (kept : mode = .assignment → part.text ≠ swap.old ∨ bound = true) : copy.text = part.text := by
  cases mode with
  | assignment => rw [copied.text_assigned isName, Rename.name_of_ne (kept rfl)]
  | _ => exact Copied.text_declared copied

theorem mirrors_shortDefault (defaults : Copied swap .code bound other default defaultCopy)
    (kept : isBindingName part → copy.text = part.text) (temp : String) :
    Rebinds swap bound (mode.place.binds swap.old tree)
      (do return (← bindWithDefault mode part (.field temp part.text) default, [part.text]))
      (do return (← bindWithDefault mode copy (.field temp copy.text) defaultCopy,
        [copy.text])) := by
  by_cases isShort : part.kind = "shorthand_property_identifier"
  · -- Such a node is no target, so nothing comes of it.
    have refused : Mirrors swap bound (bound || mode.place.binds swap.old tree)
        (fun _ _ => False) (bindWithDefault mode part (.field temp part.text) default)
        (bindWithDefault mode copy (.field temp copy.text) defaultCopy) := by
      unfold bindWithDefault
      refine mirrors_next mirrors_freshTemp fun temp => ?_
      refine mirrors_next defaults.expression fun fallback => ?_
      have noPattern : isPattern part = false := by simp [isPattern, isShort]
      have noTarget (reading : Reading) :
          bindTarget mode part reading = unsupported part "destructuring target" := by
        simp [bindTarget, isBindingName, isMemberTarget, isPattern, isShort]
      rw [isPattern_congr copied.kind, noPattern, noTarget]
      exact mirrors_refusal_bind
    exact mirrors_bind refused fun _ _ never => never.elim
  · have text : copy.text = part.text := by
      by_cases isName : isBindingName part
      · exact kept isName
      · have other : part.kind ∉ namingKinds := by
          simp only [isBindingName, Bool.or_eq_true, beq_iff_eq, not_or] at isName
          simp [namingKinds, isName, isShort]
        exact copied.twins.sameText rfl other
    rw [text]
    exact mirrors_map (mirrors_bindWithDefault copied _ defaults)

theorem mirrors_unpackProperty_of_copied (temp : String) (claimed : List String)
    (plain : expansion? swap.old mode.place "object_pattern" tree = none ∨ bound = true) :
    Rebinds swap bound (mode.place.binds swap.old tree)
      (unpackProperty mode temp claimed part) (unpackProperty mode temp claimed copy) := by
  unfold unpackProperty
  rw [copied.kind]
  split
  · rename_i isShort
    have text : copy.text = part.text := by
      refine copied.text_of_ne (by simp [isBindingName, isShort]) fun assigns => ?_
      refine plain.imp_left fun short same => ?_
      rw [copied.kind_part] at isShort
      rw [copied.text_part] at same
      simp [expansion?, assigns, BindingMode.place, isShort, same] at short
    rw [text]
    exact mirrors_map (mirrors_bindTarget copied _)
  · rename_i isDefault
    have twins := copied.pattern (by rw [isDefault]; decide)
    have target := twins.patternField "left" isDefault (by decide) rfl
    have value := twins.patternField "right" isDefault (by decide) rfl
    refine twins.each target mirrors_refusal fun {left _ _} foundLeft leftCopied => ?_
    refine twins.each value mirrors_refusal fun _ rightCopied => ?_
    rw [copied.kind_part] at isDefault
    have binds : mode.place.binds swap.old tree = mode.place.binds swap.old left := by
      rw [Place.binds, patternBinds_default (.inr isDefault), foundLeft]
      rfl
    rw [binds]
    refine mirrors_shortDefault leftCopied rightCopied (fun isName => ?_) temp
    refine leftCopied.text_of_ne isName fun assigns => ?_
    refine plain.imp_left fun short same => ?_
    rw [leftCopied.text_part] at same
    simp only [isBindingName, leftCopied.kind_part] at isName
    simp [expansion?, assigns, BindingMode.place, isDefault, defaults, foundLeft, isName,
      same] at short
  · rename_i isPair
    have twins := copied.pattern (by rw [isPair]; decide)
    have named := twins.patternField "key" isPair (by decide) rfl
    have target := twins.patternField "value" isPair (by decide) rfl
    refine twins.each named mirrors_refusal fun {_ key _} _ keyCopied => ?_
    refine twins.each target mirrors_refusal fun {inner _ _} foundInner innerCopied => ?_
    rw [copied.kind_part] at isPair
    have binds : mode.place.binds swap.old tree = mode.place.binds swap.old inner := by
      rw [Place.binds, patternBinds_pair isPair, foundInner]
      rfl
    rw [keyCopied.eq_of_inert, binds]
    refine mirrors_next (mirrors_patternKey key) fun name => ?_
    exact mirrors_map (mirrors_bindEither innerCopied _)
  · exact mirrors_map (mirrors_objectRest copied temp claimed ‹_›)
  · exact mirrors_refusal

omit copied

theorem fields_expanded (name property value : String) (child twin : Node) :
    (rendered (expanded name property value child twin)).kind = property ∧
      (∃ key, (rendered (expanded name property value child twin)).field? "key" = some key ∧
        key.kind = "property_identifier" ∧ key.text = name) ∧
      (rendered (expanded name property value child twin)).field? "value" =
        some (rendered (asValue value twin)) := by
  exact ⟨kind_rendered _, ⟨_, field?_rendered _ "key", kind_rendered _, text_rendered _⟩,
    field?_rendered _ "value"⟩

theorem expansion?_pattern_eq_some
    (short : expansion? name place "object_pattern" tree = some kinds) :
    place = .assigned ∧
      (tree.kind = "shorthand_property_identifier_pattern" ∧ tree.text = name ∧
          kinds = ("pair_pattern", "identifier") ∨
        tree.kind = "object_assignment_pattern" ∧ defaults name tree ∧
          kinds = ("pair_pattern", "assignment_pattern")) := by
  unfold expansion? at short
  grind

variable (temp : String)
include temp

theorem unpackProperty_expanded {value : String} {twin : Node} (claimed : List String) :
    unpackProperty mode temp claimed (rendered (expanded name "pair_pattern" value tree twin)) =
      (do return (← bindEither mode (rendered (asValue value twin)) (.field temp name),
        [name])) := by
  obtain ⟨kind, ⟨key, foundKey, keyKind, keyText⟩, foundValue⟩ :=
    fields_expanded name "pair_pattern" value tree twin
  simp only [unpackProperty, kind, foundKey, foundValue, patternKey, keyKind, keyText, pure_bind]

theorem mirrors_unpackProperty_of_expansion (claimed : List String)
    (reflected : Reflected swap tree)
    (short : expansion? swap.old mode.place "object_pattern" tree = some kinds) :
    Mirrors swap false (false || mode.place.binds swap.old tree) Eq
      (unpackProperty mode temp claimed (rendered tree))
      (unpackProperty mode temp claimed (rendered (expanded swap.old kinds.1 kinds.2 tree
        (enter swap.old swap.new mode.place false tree)))) := by
  obtain ⟨assigned, forms⟩ := expansion?_pattern_eq_some short
  obtain rfl : mode = .assignment := by
    cases mode with
    | assignment => rfl
    | _ => cases assigned
  have copied : Copied swap BindingMode.assignment.place false tree (rendered tree)
      (rendered (enter swap.old swap.new .assigned false tree)) := ⟨reflected, rfl, rfl⟩
  rw [or_binds_assignment]
  change Mirrors swap false false Eq _ (unpackProperty .assignment temp claimed (rendered
    (expanded swap.old kinds.1 kinds.2 tree (enter swap.old swap.new .assigned false tree))))
  have twinKind : (rendered (asValue kinds.2 (enter swap.old swap.new .assigned false tree))).kind =
    kinds.2 := kind_rendered _
  rcases forms with ⟨isShort, isOld, rfl⟩ | ⟨isDefault, isOld, rfl⟩
  · have kind : (rendered tree).kind = "shorthand_property_identifier_pattern" := by
      rw [copied.kind_part, isShort]
    have isName : isBindingName (rendered tree) := by simp [isBindingName, kind]
    have text : (rendered tree).text = swap.old := by rw [text_rendered, isOld]
    have twinText : (rendered (asValue "identifier"
        (enter swap.old swap.new .assigned false tree))).text =
        swap.name false (rendered tree).text := by
      rw [← copied.text_assigned isName, text_rendered, text_rendered]
      rfl
    have source : unpackProperty .assignment temp claimed (rendered tree) =
        (do return (← bindTarget .assignment (rendered tree) (.field temp swap.old),
          [swap.old])) := by simp only [unpackProperty, kind, text]
    rw [source, unpackProperty_expanded, bindEither, twinKind, if_neg (by decide), bindTarget,
      if_pos isName, bindTarget, if_pos (by simp [isBindingName, twinKind])]
    refine mirrors_map (mirrors_map (mirrors_nameValue ?_ twinText))
    rw [text_rendered]
    exact reflected.top.unused
  · have kind : (rendered tree).kind = "object_assignment_pattern" := by
      rw [copied.kind_part, isDefault]
    have twins := copied.pattern (by rw [kind]; decide)
    have twinField (field : String) : (rendered (asValue "assignment_pattern"
        (enter swap.old swap.new .assigned false tree))).field? field =
        (rendered (enter swap.old swap.new .assigned false tree)).field? field := by
      rw [field?_rendered, field?_rendered]
      rfl
    rw [unpackProperty_expanded, bindEither, twinKind, if_pos (by decide), bindDefaulted, twinField,
      twinField]
    simp only [unpackProperty, kind]
    have place : swap.Becomes .assigned false tree "left" BindingMode.assignment.place false :=
      twins.patternField "left" kind (by decide) rfl
    have value := twins.patternField "right" kind (by decide) rfl
    refine twins.each place mirrors_refusal fun {_ target _} foundLeft leftCopied => ?_
    refine twins.each value mirrors_refusal fun _ rightCopied => ?_
    have text : target.text = swap.old := by
      rw [leftCopied.text_part]
      simp only [defaults, foundLeft, Option.any_some, Bool.and_eq_true, beq_iff_eq] at isOld
      exact isOld.2
    have binding := mirrors_bindWithDefault leftCopied (.field temp swap.old) rightCopied
    rw [Rebinds, or_binds_assignment] at binding
    dsimp only
    rw [text]
    exact mirrors_map binding

theorem mirrors_unpackProperty (claimed : List String) (reflected : Reflected swap tree) :
    Rebinds swap bound (mode.place.binds swap.old tree)
      (unpackProperty mode temp claimed (rendered tree))
      (unpackProperty mode temp claimed (rendered
        (placed swap.old swap.new mode.place "object_pattern" mode.place bound tree))) := by
  have copied : Copied swap mode.place bound tree (rendered tree)
      (rendered (enter swap.old swap.new mode.place bound tree)) := ⟨reflected, rfl, rfl⟩
  rw [placed, spelledOut]
  cases short : expansion? swap.old mode.place "object_pattern" tree with
  | none => exact mirrors_unpackProperty_of_copied copied temp claimed (.inl short)
  | some kinds =>
    cases bound with
    | true => exact mirrors_unpackProperty_of_copied copied temp claimed (.inr rfl)
    | false =>
      have quiet : enters swap.old mode.place tree = false := by
        obtain ⟨assigned, forms⟩ := expansion?_pattern_eq_some short
        have isTarget : tree.kind ∈ targetKinds := by
          rcases forms with ⟨kind, _⟩ | ⟨kind, _⟩ <;> rw [kind] <;> decide
        simp [enters, settled, assigned, isTarget]
      dsimp only
      rw [quiet]
      exact mirrors_unpackProperty_of_expansion temp claimed reflected short

theorem mirrors_unpackProperties (claimed : List String)
    (reflected : ∀ node ∈ nodes, Reflected swap node) :
    Rebinds swap bound (nodes.any (mode.place.binds swap.old))
      (unpackProperties mode temp claimed (nodes.map rendered))
      (unpackProperties mode temp claimed ((thread (mode.place.binds swap.old)
        (placed swap.old swap.new mode.place "object_pattern" mode.place) bound nodes).map
        rendered)) := by
  induction nodes generalizing bound claimed with
  | nil =>
    rw [Rebinds, any_nil, Bool.or_false]
    exact mirrors_pure rfl
  | cons node rest rest_mirrors =>
    rw [Rebinds, any_cons, ← Bool.or_assoc]
    refine mirrors_next (mirrors_unpackProperty temp claimed (reflected node (.head _)))
      fun result => ?_
    exact mirrors_map (rest_mirrors _ fun other member => reflected other (.tail _ member))

theorem mirrors_unpackElement (index : Nat) (copied : Copied swap mode.place bound tree part copy) :
    Rebinds swap bound (mode.place.binds swap.old tree)
      (unpackElement mode temp index part) (unpackElement mode temp index copy) := by
  rw [unpackElement, unpackElement, copied.kind, copied.isNamed]
  split
  · rename_i isRest
    split
    · exact mirrors_refusal
    rename_i target found
    obtain ⟨node, twin, binds, foundTwin, inner⟩ := copied.rest (eq_of_beq isRest) found
    rw [foundTwin, binds]
    exact mirrors_bindTarget inner _
  · split
    · exact mirrors_bindEither copied _
    · exact mirrors_refusal

omit temp in
theorem binds_of_mark (isMark : tree.kind = "[" ∨ tree.kind = "]" ∨ tree.kind = ",") :
    place.binds name tree = false := by
  rw [Place.binds, patternBinds_eq]
  rcases isMark with kind | kind | kind <;> rw [kind] <;> simp

theorem mirrors_unpackElements (index : Nat) (reflected : ∀ node ∈ nodes, Reflected swap node) :
    Rebinds swap bound (nodes.any (mode.place.binds swap.old))
      (unpackElements mode temp index (nodes.map rendered))
      (unpackElements mode temp index ((thread (mode.place.binds swap.old)
        (enter swap.old swap.new mode.place) bound nodes).map rendered)) := by
  induction nodes generalizing bound index with
  | nil =>
    rw [Rebinds, any_nil, Bool.or_false]
    exact mirrors_pure rfl
  | cons node rest rest_mirrors =>
    have others : ∀ node ∈ rest, Reflected swap node :=
      fun other member => reflected other (.tail _ member)
    have copied : Copied swap mode.place bound node (rendered node)
      (rendered (enter swap.old swap.new mode.place bound node)) :=
      ⟨reflected node (.head _), rfl, rfl⟩
    rw [Rebinds, any_cons, ← Bool.or_assoc, thread, map_cons, map_cons, unpackElements,
      unpackElements, copied.kind]
    split
    · rename_i isBracket
      simp only [Bool.or_eq_true, beq_iff_eq, copied.kind_part] at isBracket
      rw [binds_of_mark (by tauto), Bool.or_false]
      exact rest_mirrors index others
    · split
      · rename_i isComma
        simp only [beq_iff_eq, copied.kind_part] at isComma
        rw [binds_of_mark (.inr (.inr isComma)), Bool.or_false]
        exact rest_mirrors (index + 1) others
      · refine mirrors_next (mirrors_unpackElement temp index copied) fun steps => ?_
        exact mirrors_map (rest_mirrors index others)

omit temp

theorem binds_eq_any (same : patternBinds swap.old tree = nodes.any (patternBinds swap.old)) :
    mode.place.binds swap.old tree = nodes.any (mode.place.binds swap.old) := by
  cases mode with
  | assignment => simp [BindingMode.place, Place.binds]
  | _ => rwa [← Place.binds_declared] at same

theorem mirrors_renderUnpack (twins : Twins swap mode.place bound tree part copy) (temp : String) :
    Rebinds swap bound (mode.place.binds swap.old tree)
      (renderUnpack part mode temp) (renderUnpack copy mode temp) := by
  rw [renderUnpack, renderUnpack, twins.kind, twins.source.kind]
  split
  · rename_i isObject
    have isObject : tree.kind = "object_pattern" := eq_of_beq isObject
    rw [twins.source.named, twins.copied.named, named_objectPattern mode.place_mem isObject,
      binds_eq_any (patternBinds_object isObject)]
    exact mirrors_unpackProperties temp [] fun node member =>
      twins.parts node (Tree.mem_children_of_mem_named member)
  · split
    · rename_i isArray
      have isArray : tree.kind = "array_pattern" := eq_of_beq isArray
      rw [twins.source.parts, twins.copied.parts, parts_arrayPattern mode.place_mem isArray,
        binds_eq_any (patternBinds_array isArray)]
      exact mirrors_unpackElements temp 0 fun node member =>
        twins.parts node (Tree.mem_children_of_mem_parts member)
    · exact mirrors_refusal

theorem mirrors_unpackFrom (copied : Copied swap mode.place bound tree part copy) (temp : String) :
    Rebinds swap bound (mode.place.binds swap.old tree)
      (unpackFrom mode part temp) (unpackFrom mode copy temp) := by
  rw [unpackFrom, unpackFrom, isPattern_congr copied.kind]
  split
  · exact copied.unpack temp
  · exact mirrors_bindTarget copied _

theorem mirrors_destructure {source sourceCopy : Part}
    (copied : Copied swap mode.place bound tree part copy)
    (value : Copied swap .code bound other source sourceCopy) :
    Rebinds swap bound (mode.place.binds swap.old tree)
      (destructure mode part source) (destructure mode copy sourceCopy) := by
  unfold destructure
  refine mirrors_next value.expression fun value => ?_
  refine mirrors_next mirrors_freshTemp fun temp => ?_
  exact mirrors_map (mirrors_unpackFrom copied temp)

end Patterns

end Haxify.Lower
