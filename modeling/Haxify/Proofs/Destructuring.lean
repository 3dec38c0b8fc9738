import Haxify.Proofs.PatternMeaning

/-!
# Taking values apart by steps

The steps that a pattern is lowered to do what the pattern means. Steps emitted for a part
of a pattern read from one temporary, declare temporaries behind those there are, and keep
the earlier ones, so they can stand one behind the other. From such pieces the steps of a
whole pattern are put together along its tree.
-/

namespace Haxify.Destructuring

open List
open TypeScript (Tree Node)
open Lower

variable {claimed : List String} {index : Nat}
variable {context : Context} {World : Type}

/-- What is done with a value, whatever expressions mean. -/
abbrev Act (context : Context) : Type 1 :=
  ∀ World : Type, Setting context World → Value → Scope × World → Run World

def Pattern.act (pattern : Pattern) : Act context := fun _ setting => pattern.bind setting

/-- Something is done with what is found in a value, or with its default. -/
def Act.behind (act : Act context) (default? : Option String)
    (read? : Bool → Value → Option Value) : Act context :=
  fun World setting value =>
    take setting.evaluate (act World setting) default? (read? setting.lenient value)

/-- Something is done with what a reading makes of a value. -/
def Act.of (act : Act context) (reading : Reading) : Act context :=
  act.behind (readingDefault? reading) fun lenient value => readingOf lenient value reading

def Below (bound : Nat) (known : List String) : Prop :=
  ∀ temp ∈ known, ∃ number < bound, temp = tempName number

/-- Steps that do with the value of a temporary what an act does. They declare temporaries from
one number up to another, and keep those below a number. -/
structure Emits (context : Context) (keep first last number : Nat) (names : List String)
    (act : Act context) (steps : List BindingStep) : Prop where
  forward : first ≤ last
  named : steps.flatMap stepNames = names
  /-- The temporaries are declared in order, whatever goes on behind them. -/
  declared : ∀ known more, tempName number ∈ known → Below first known →
    (∀ later, known ⊆ later → Below last later → Declared later more) →
    Declared known (steps ++ more)
  follows : ∀ (World : Type) (setting : Setting context World), names ⊆ setting.names →
    ∀ source slots world, setting.Same source slots →
      Follows setting keep slots (act World setting (slots (tempName number)) (source, world))
        (performAll setting steps (slots, world))

section Steps

variable {keep keep' first first' between last number into : Nat} {names others : List String}
  {act act' : Act context} {steps more : List BindingStep} {step : BindingStep}
  {reading : Reading} {default? : Option String} {read? : Bool → Value → Option Value}

@[simp] theorem take_value (evaluate : String → Scope × World → Value × (Scope × World))
    (target : Value → Scope × World → Run World) (value : Value) (now : Scope × World) :
    take evaluate target none (some value) now = target value now := by
  cases value <;> rfl

theorem Act.of_whole (act : Act context) (temp : String) : act.of (.whole temp) = act := by
  funext World setting value now
  exact take_value _ _ _ _

theorem Below.mono {known : List String} (below : Below first known) (less : first ≤ last) :
    Below last known := fun temp listed => by
  obtain ⟨number, isLess, same⟩ := below temp listed
  exact ⟨number, Nat.lt_of_lt_of_le isLess less, same⟩

namespace Emits

theorem nil : Emits context keep first first number [] (fun _ _ _ now => .ok now) [] where
  forward := Nat.le_refl first
  named := rfl
  declared known _ _ below next := next known (List.Subset.refl known) below
  follows _ _ _ _ _ _ same := .ends same fun _ _ _ => rfl

theorem weaken (emits : Emits context keep' first' last number names act steps)
    (fewer : keep ≤ keep') (earlier : first ≤ first') :
    Emits context keep first last number names act steps where
  forward := earlier.trans emits.forward
  named := emits.named
  declared known more inside below := emits.declared known more inside (below.mono earlier)
  follows World setting listed source slots world same :=
    (emits.follows World setting listed source slots world same).mono fewer fun _ _ _ => rfl

theorem append (head : Emits context first first between number names act steps)
    (tail : Emits context between between last number others act' more)
    (free : tempName number ∉ context.takenTemps) (old : number < first) :
    Emits context first first last number (names ++ others) (fun World setting value now =>
        (act World setting value now).bind (act' World setting value)) (steps ++ more) where
  forward := head.forward.trans tail.forward
  named := by rw [flatMap_append, head.named, tail.named]
  declared known rest inside below next := by
    rw [append_assoc]
    refine head.declared known _ inside below fun later grown below' => ?_
    exact tail.declared later rest (grown inside) below' fun last more =>
      next last (List.Subset.trans grown more)
  follows World setting listed source slots world same := by
    obtain ⟨listedHead, listedTail⟩ := append_subset.mp listed
    rw [performAll_append]
    refine (head.follows World setting listedHead source slots world same).bind head.forward ?_
    intro source' slots' world' same' kept
    have tailFollows := tail.follows World setting listedTail source' slots' world' same'
    rw [kept number old free] at tailFollows
    exact tailFollows

/-- A step that stores what it finds in a temporary, and steps that go on from there. Either
the temporary is new, or the step changes the one it reads from. -/
theorem cons (inner : Emits context keep' first' last into names act steps)
    (stores : ∀ World (setting : Setting context World) now, perform setting now step =
      take setting.execute (assign (tempName into)) default?
        (read? setting.lenient (now.1 (tempName number))) now)
    (unnamed : stepNames step = []) (reads : stepReads step = [tempName number])
    (declares : stepDeclares step = [tempName into] ∧ first ≤ into ∧ first' = into + 1 ∨
      stepDeclares step = [] ∧ into = number ∧ first' = first)
    (free : tempName into ∉ context.takenTemps) (fewer : keep ≤ keep') (new : keep ≤ into) :
    Emits context keep first last number names (act.behind default? read?) (step :: steps) where
  forward := by
    have onward := inner.forward
    rcases declares with ⟨_, later, next⟩ | ⟨_, _, next⟩ <;> omega
  named := by rw [flatMap_cons, unnamed, nil_append, inner.named]
  declared known more inside below next := by
    refine ⟨by simpa [reads] using inside, ?_⟩
    rcases declares with ⟨only, later, rfl⟩ | ⟨none, rfl, rfl⟩
    · have fresh : tempName into ∉ known := fun isKnown => by
        obtain ⟨old, less, same⟩ := below _ isKnown
        have := tempName_injective same
        omega
      have below' : Below (into + 1) (tempName into :: known) := forall_mem_cons.mpr
        ⟨⟨into, Nat.lt_succ_self into, rfl⟩, below.mono (Nat.le_succ_of_le later)⟩
      rw [only]
      refine ⟨by simpa using fresh, inner.declared _ more (.head _) below' ?_⟩
      exact fun last grown => next last fun temp listed => grown (.tail _ listed)
    · rw [none]
      exact ⟨by simp, inner.declared known more inside below next⟩
  follows World setting listed source slots world same := by
    rw [performAll, stores, take_bind]
    refine Follows.take same fun value source' slots' world' same' kept => ?_
    have onward := inner.follows World setting listed source'
      (Function.update slots' (tempName into) value) world' (same'.temporary free value)
    rw [Function.update_self] at onward
    refine onward.mono fewer fun other below free' => ?_
    have apart : tempName other ≠ tempName into := fun alike => by
      have := tempName_injective alike
      omega
    rw [Function.update_of_ne apart, kept other free']

theorem hold (inner : Emits context keep (into + 1) last into names act steps)
    (ofTemp : readingTemp reading = tempName number) (free : tempName into ∉ context.takenTemps)
    (new : first ≤ into) (fewer : first ≤ keep) :
    Emits context first first last number names (act.of reading)
      (.hold (tempName into) reading :: steps) :=
  inner.cons (fun _ _ _ => by rw [perform, store, ofTemp]) rfl (by rw [stepReads, ofTemp])
    (.inl ⟨rfl, new, rfl⟩) free fewer new

theorem fill (inner : Emits context keep first last number names act steps)
    (free : tempName number ∉ context.takenTemps) (fewer : number ≤ keep) (default : String) :
    Emits context number first last number names (act.of (.fallback (tempName number) default))
      (.fill (tempName number) default :: steps) :=
  inner.cons (fun _ _ _ => rfl) rfl rfl (.inr ⟨rfl, rfl, rfl⟩) free fewer (Nat.le_refl number)

theorem declare (ofTemp : readingTemp reading = tempName number) (isConstant : Bool)
    (name : String) :
    Emits context keep first first number [name] ((Pattern.name name).act.of reading)
      [.declare isConstant name reading] where
  forward := Nat.le_refl first
  named := rfl
  declared known more inside below next :=
    ⟨by simpa [stepReads, ofTemp] using inside, by simp [stepDeclares],
      next known (List.Subset.refl known) below⟩
  follows World setting listed source slots world same := by
    rw [performAll, perform, store, ofTemp, take_bind]
    refine Follows.take same fun value source' slots' world' same' kept => ?_
    have isListed : name ∈ setting.names := listed (.head _)
    refine .ends (same'.name isListed value) fun other _ free => ?_
    have apart : tempName other ≠ Haxe.sanitize name := fun alike =>
      free (setting.apart name isListed other alike.symm)
    simp only [Function.update_of_ne apart, kept other free]

theorem drop (inner : Emits context keep first last number names act steps)
    (free : tempName number ∉ context.takenTemps) (fewer : number ≤ keep) (keys : List String) :
    Emits context number first last number names
      (fun World setting value => act World setting ((value.without? keys).getD .null))
      (keys.map (.drop (tempName number)) ++ steps) := by
  induction keys with
  | nil =>
    have whole (value : Value) : (value.without? []).getD .null = value := by
      cases value <;> simp [Value.without?]
    simpa [whole] using inner.weaken fewer (Nat.le_refl first)
  | cons key keys onward =>
    have same (value : Value) : (((value.without? [key]).getD .null).without? keys).getD .null =
        (value.without? (key :: keys)).getD .null := by
      rw [Value.without?_cons key keys]
      cases value <;> rfl
    have dropped : Emits context number first last number names
        (Act.behind
          (fun World setting value => act World setting ((value.without? keys).getD .null))
          none fun _ value => some ((value.without? [key]).getD .null))
        ((key :: keys).map (.drop (tempName number)) ++ steps) :=
      onward.cons (fun _ _ _ => by rw [perform, take_value]) rfl rfl (.inr ⟨rfl, rfl, rfl⟩) free
        (Nat.le_refl number) (Nat.le_refl number)
    convert dropped using 1
    funext World setting value now
    rw [Act.behind, take_value, same]

theorem rest (inner : Emits context keep (into + 1) last into names act steps)
    (free : tempName into ∉ context.takenTemps) (new : first ≤ into) (fewer : into ≤ keep)
    (claimed : List String) :
    Emits context first first last number names
      (act.behind none fun lenient value => (Source.others claimed).read? lenient value)
      (.copy (tempName into) (tempName number) ::
        (claimed.map (.drop (tempName into)) ++ steps)) := by
  have copied : Emits context first first last number names
      (Act.behind
        (fun World setting value => act World setting ((value.without? claimed).getD .null))
        none fun lenient value => (Source.others []).read? lenient value)
      (.copy (tempName into) (tempName number) :: (claimed.map (.drop (tempName into)) ++ steps)) :=
    (inner.drop free fewer claimed).cons (fun _ _ _ => rfl) rfl rfl
      (.inl ⟨rfl, new, rfl⟩) free new new
  convert copied using 1
  funext World setting value now
  cases value <;> cases lenient : setting.lenient <;>
    simp [Act.behind, Source.read?, Value.without?, lenient, take]

end Emits

end Steps

/-- A node is lowered to an expression, in some state. -/
def LowersTo (context : Context) (node : Part) (text : String) : Prop :=
  ∃ state after, node.value.expression.evaluate context state = (.ok text, after)

def NamesKey (node : Part) (key : String) : Prop :=
  node.kind ∈ ["property_identifier", "number"] ∧ key = node.text ∨
    node.kind = "string" ∧ key = TypeScript.decodeLiteral node.text

mutual

/-- A node stands for a pattern. -/
inductive Stands (context : Context) : Part → Pattern → Prop
  | name {node : Part} (isName : isBindingName node) : Stands context node (.name node.text)
  | object {node : Part} {parts : List Portion} (kind : node.kind = "object_pattern")
      (members : Members context [] node.named parts) : Stands context node (.parts parts)
  | array {node : Part} {parts : List Portion} (kind : node.kind = "array_pattern")
      (elements : Elements context 0 node.parts parts) : Stands context node (.parts parts)

inductive Defaults (context : Context) : Part → Option String → Pattern → Prop
  | plain {node : Part} {pattern : Pattern} (stands : Stands context node pattern) :
      Defaults context node none pattern
  | default {node target default : Part} {text : String} {pattern : Pattern}
      (kind : node.kind ∈ ["assignment_pattern", "object_assignment_pattern"])
      (left : node.field? "left" = some target) (right : node.field? "right" = some default)
      (lowers : LowersTo context default text) (stands : Stands context target pattern) :
      Defaults context node (some text) pattern

/-- What a member of an object pattern stands for, behind the keys claimed before it, and the
keys it claims. -/
inductive Member (context : Context) : List String → Part → Portion → List String → Prop
  | shorthand {claimed : List String} {node : Part}
      (kind : node.kind = "shorthand_property_identifier_pattern") :
      Member context claimed node ⟨.field node.text, none, .name node.text⟩ [node.text]
  | defaulted {claimed : List String} {node target : Part} {default? : Option String}
      {pattern : Pattern} (kind : node.kind = "object_assignment_pattern")
      (left : node.field? "left" = some target)
      (defaults : Defaults context node default? pattern) :
      Member context claimed node ⟨.field target.text, default?, pattern⟩ [target.text]
  | pair {claimed : List String} {node key target : Part} {name : String}
      {default? : Option String} {pattern : Pattern}
      (kind : node.kind = "pair_pattern") (found : node.field? "key" = some key)
      (named : NamesKey key name) (value : node.field? "value" = some target)
      (defaults : Defaults context target default? pattern) :
      Member context claimed node ⟨.field name, default?, pattern⟩ [name]
  | rest {claimed : List String} {node target : Part} {pattern : Pattern}
      (kind : node.kind = "rest_pattern") (first : node.first? = some target)
      (stands : Stands context target pattern) :
      Member context claimed node ⟨.others claimed, none, pattern⟩ []

/-- What the members of an object pattern stand for, in order. -/
inductive Members (context : Context) : List String → List Part → List Portion → Prop
  | nil {claimed : List String} : Members context claimed [] []
  | cons {claimed keys : List String} {node : Part} {others : List Part} {part : Portion}
      {parts : List Portion} (member : Member context claimed node part keys)
      (members : Members context (claimed ++ keys) others parts) :
      Members context claimed (node :: others) (part :: parts)

/-- An element at an index stands for a part of a pattern. -/
inductive Element (context : Context) : Nat → Part → Portion → Prop
  | single {index : Nat} {node : Part} {default? : Option String} {pattern : Pattern}
      (defaults : Defaults context node default? pattern) :
      Element context index node ⟨.element index, default?, pattern⟩
  | rest {index : Nat} {node target : Part} {pattern : Pattern}
      (kind : node.kind = "rest_pattern") (first : node.first? = some target)
      (stands : Stands context target pattern) :
      Element context index node ⟨.suffix index, none, pattern⟩

/-- What the elements of an array pattern stand for: the index of each is the number of commas
in front of it. -/
inductive Elements (context : Context) : Nat → List Part → List Portion → Prop
  | nil {index : Nat} : Elements context index [] []
  | bracket {index : Nat} {node : Part} {others : List Part} {parts : List Portion}
      (kind : node.kind ∈ ["[", "]"]) (elements : Elements context index others parts) :
      Elements context index (node :: others) parts
  | comma {index : Nat} {node : Part} {others : List Part} {parts : List Portion}
      (kind : node.kind = ",") (elements : Elements context (index + 1) others parts) :
      Elements context index (node :: others) parts
  | cons {index : Nat} {node : Part} {others : List Part} {part : Portion} {parts : List Portion}
      (element : Element context index node part) (elements : Elements context index others parts) :
      Elements context index (node :: others) (part :: parts)

end

section Lowering

open Lowering (bind_eq_ok pure_eq_ok)

variable {state after : State} {mode : BindingMode} {number : Nat} {steps : List BindingStep}
  {node : Part} {reading : Reading}

/-- Steps emitted from one state of a lowering to another. -/
abbrev Binds (context : Context) (state after : State) (number : Nat) (names : List String)
    (act : Act context) (steps : List BindingStep) : Prop :=
  Emits context state.nextTemp state.nextTemp after.nextTemp number names act steps

/-- A node whose steps, if it is a pattern, do what the pattern means. -/
structure Ready (context : Context) (node : Part) : Prop where
  /-- It never goes back to an earlier temporary. -/
  framed : framing.Accepts node
  unpacks : ∀ {mode : BindingMode} {number : Nat} {state : State} {steps : List BindingStep}
    {after : State}, mode ≠ .assignment → tempName number ∉ context.takenTemps →
    number < state.nextTemp →
    (node.value.unpack mode (tempName number)).evaluate context state = (.ok steps, after) →
    ∃ pattern, Stands context node pattern ∧
      Binds context state after number pattern.names pattern.act steps

theorem exists_number_of_freshTemp {temp : String}
    (run : freshTemp.evaluate context state = (.ok temp, after)) :
    ∃ into, temp = tempName into ∧ tempName into ∉ context.takenTemps ∧
      state.nextTemp ≤ into ∧ after.nextTemp = into + 1 := by
  rw [evaluate_freshTemp] at run
  cases run
  exact ⟨_, rfl, Text.leastFree_not_mem tempName_injective _ _, Text.le_leastFree _ _ _, rfl⟩

variable (declares : mode ≠ .assignment) (ofTemp : readingTemp reading = tempName number)
include declares ofTemp

theorem binds_name
    (run : (bindName mode node reading).evaluate context state = (.ok steps, after)) :
    Binds context state after number [node.text] ((Pattern.name node.text).act.of reading)
      steps := by
  rw [bindName.eq_def] at run
  cases mode with
  | assignment => exact absurd rfl declares
  | _ =>
    obtain ⟨_, bound, rfl⟩ := map_eq_ok.mp run
    cases bound
    exact Emits.declare ofTemp _ node.text

theorem binds_target (ready : Ready context node)
    (run : (bindTarget mode node reading).evaluate context state = (.ok steps, after)) :
    ∃ pattern, Stands context node pattern ∧
      Binds context state after number pattern.names (pattern.act.of reading) steps := by
  rw [bindTarget] at run
  split at run
  · rename_i isName
    exact ⟨_, .name isName, binds_name declares ofTemp run⟩
  · split at run
    · rename_i isMember
      simp [declares] at isMember
    · split at run
      · obtain ⟨temp, between, taken, run⟩ := bind_eq_ok.mp run
        obtain ⟨into, rfl, free, new, next⟩ := exists_number_of_freshTemp taken
        obtain ⟨inner, unpacked, rfl⟩ := map_eq_ok.mp run
        obtain ⟨pattern, stands, binds⟩ := ready.unpacks declares free (by omega) unpacked
        rw [Binds, next] at binds
        exact ⟨pattern, stands, binds.hold ofTemp free new (by omega)⟩
      · simp at run

theorem binds_withDefault {target default : Part} (ready : Ready context target)
    (defaultReady : Ready context default) (plain : readingDefault? reading = none)
    (run : (bindWithDefault mode target reading default).evaluate context state =
      (.ok steps, after)) :
    ∃ pattern text, Stands context target pattern ∧ LowersTo context default text ∧
      Binds context state after number pattern.names
        (pattern.act.behind (some text) fun lenient value => readingOf lenient value reading)
        steps := by
  obtain ⟨temp, between, taken, run⟩ := bind_eq_ok.mp run
  obtain ⟨into, rfl, free, new, next⟩ := exists_number_of_freshTemp taken
  obtain ⟨text, later, lowered, run⟩ := bind_eq_ok.mp run
  have onward : between.nextTemp ≤ later.nextTemp := by
    have kept := (framed_expression defaultReady.framed [] context between).temps
    rwa [lowered] at kept
  have inner : ∃ pattern others, Stands context target pattern ∧
      steps = .hold (tempName into) reading :: others ∧
      Emits context into later.nextTemp after.nextTemp into pattern.names
        (pattern.act.of (.fallback (tempName into) text)) others := by
    split at run
    · obtain ⟨inner, unpacked, rfl⟩ := map_eq_ok.mp run
      obtain ⟨pattern, stands, binds⟩ := ready.unpacks declares free (by omega) unpacked
      exact ⟨pattern, _, stands, rfl, binds.fill free (by omega) text⟩
    · obtain ⟨inner, bound, rfl⟩ := map_eq_ok.mp run
      obtain ⟨pattern, stands, binds⟩ := binds_target declares rfl ready bound
      exact ⟨pattern, _, stands, rfl, binds.weaken (by omega) (Nat.le_refl _)⟩
  obtain ⟨pattern, others, stands, rfl, emits⟩ := inner
  refine ⟨pattern, text, stands, ⟨between, later, lowered⟩, ?_⟩
  convert (emits.weaken (Nat.le_refl into) (by omega)).hold ofTemp free new new using 1
  funext World setting value now
  rw [Act.of, plain, Act.behind, Act.behind]
  cases readingOf setting.lenient value reading with
  | none => rfl
  | some found => rw [take_value]; rfl

variable (ready : node.Throughout (Ready context))
include ready

theorem binds_defaulted (kind : node.kind ∈ ["assignment_pattern", "object_assignment_pattern"])
    (plain : readingDefault? reading = none)
    {target default : Part} (left : node.field? "left" = some target)
    (right : node.field? "right" = some default)
    (run : (bindWithDefault mode target reading default).evaluate context state =
      (.ok steps, after)) :
    ∃ pattern default?, Defaults context node default? pattern ∧
      Binds context state after number pattern.names
        (pattern.act.behind default? fun lenient value => readingOf lenient value reading)
          steps := by
  obtain ⟨pattern, text, stands, lowers, binds⟩ := binds_withDefault declares ofTemp
    (ready.field left).top (ready.field right).top plain run
  exact ⟨pattern, some text, .default kind left right lowers stands, binds⟩

theorem binds_either (plain : readingDefault? reading = none)
    (run : (bindEither mode node reading).evaluate context state = (.ok steps, after)) :
    ∃ pattern default?, Defaults context node default? pattern ∧
      Binds context state after number pattern.names
        (pattern.act.behind default? fun lenient value => readingOf lenient value reading)
          steps := by
  rw [bindEither] at run
  split at run
  · rename_i kind
    rw [bindDefaulted] at run
    split at run
    · exact binds_defaulted declares ofTemp ready (by simp [eq_of_beq kind]) plain ‹_› ‹_› run
    · simp at run
  · obtain ⟨pattern, stands, binds⟩ := binds_target declares ofTemp ready.top run
    rw [Act.of, plain] at binds
    exact ⟨pattern, none, .plain stands, binds⟩

omit ofTemp

omit declares ready in
theorem namesKey_of_patternKey {key : String}
    (run : (patternKey node).evaluate context state = (.ok key, after)) :
    NamesKey node key ∧ state = after := by
  rw [patternKey] at run
  split at run
  iterate 2
    · rename_i kind
      obtain ⟨rfl, rfl⟩ := pure_eq_ok.mp run
      exact ⟨.inl ⟨by simp [kind], rfl⟩, rfl⟩
  · rename_i kind
    obtain ⟨rfl, rfl⟩ := pure_eq_ok.mp run
    exact ⟨.inr ⟨kind, rfl⟩, rfl⟩
  · simp at run
  · simp at run

/-- Binding one part of a value. -/
def Portion.act : Portion → Act context
  | ⟨source, default?, target⟩ =>
    target.act.behind default? fun lenient value => source.read? lenient value

/-- The names that a part of a value is bound to. -/
def Portion.names : Portion → List String
  | ⟨_, _, target⟩ => target.names

theorem binds_rest (kind : node.kind = "rest_pattern")
    (run : (objectRest mode (tempName number) claimed node).evaluate context state =
      (.ok steps, after)) :
    ∃ part, Member context claimed node part [] ∧
      Binds context state after number part.names part.act steps := by
  rw [objectRest] at run
  split at run
  · simp at run
  rename_i target first
  obtain ⟨temp, between, taken, run⟩ := bind_eq_ok.mp run
  obtain ⟨into, rfl, free, new, next⟩ := exists_number_of_freshTemp taken
  obtain ⟨inner, bound, rfl⟩ := map_eq_ok.mp run
  obtain ⟨pattern, stands, binds⟩ := binds_target declares rfl (ready.first first).top bound
  rw [Binds, Act.of_whole, next] at binds
  exact ⟨_, .rest kind first stands, binds.rest free new (by omega) claimed⟩

theorem binds_property {keys : List String}
    (run : (unpackProperty mode (tempName number) claimed node).evaluate context state =
      (.ok (steps, keys), after)) :
    ∃ part, Member context claimed node part keys ∧
      Binds context state after number part.names part.act steps := by
  rw [unpackProperty] at run
  split at run
  · rename_i kind
    obtain ⟨inner, bound, same⟩ := map_eq_ok.mp run
    cases same
    have isName : isBindingName node := by simp [isBindingName, kind]
    rw [bindTarget, if_pos isName] at bound
    exact ⟨_, .shorthand kind, binds_name declares rfl bound⟩
  · rename_i kind
    split at run
    · rename_i target default left right
      obtain ⟨inner, bound, same⟩ := map_eq_ok.mp run
      cases same
      obtain ⟨pattern, default?, defaults, binds⟩ :=
        binds_defaulted declares rfl ready (by simp [kind]) rfl left right bound
      exact ⟨_, .defaulted kind left defaults, binds⟩
    · simp at run
  · rename_i kind
    split at run
    · rename_i key target found value
      obtain ⟨name, between, keyed, run⟩ := bind_eq_ok.mp run
      obtain ⟨named, rfl⟩ := namesKey_of_patternKey keyed
      obtain ⟨inner, bound, same⟩ := map_eq_ok.mp run
      cases same
      obtain ⟨pattern, default?, defaults, binds⟩ :=
        binds_either declares rfl (ready.field value) rfl bound
      exact ⟨_, .pair kind found named value defaults, binds⟩
    · simp at run
  · rename_i kind
    obtain ⟨inner, bound, same⟩ := map_eq_ok.mp run
    cases same
    exact binds_rest declares ready kind bound
  · simp at run

variable (free : tempName number ∉ context.takenTemps)
include free

omit declares ready in
theorem binds_cons {between : State} {part : Portion} {parts : List Portion}
    {more : List BindingStep}
    (old : number < state.nextTemp)
    (head : Binds context state between number part.names part.act steps)
    (tail : Binds context between after number (namesOf parts) (Pattern.parts parts).act more) :
    Binds context state after number (namesOf (part :: parts)) (Pattern.parts (part :: parts)).act
      (steps ++ more) := by
  obtain ⟨source, default?, target⟩ := part
  exact head.append tail free old

omit ready in
theorem binds_properties {properties : List Part} (old : number < state.nextTemp)
    (ready : ∀ property ∈ properties, property.Throughout (Ready context))
    (run : (unpackProperties mode (tempName number) claimed properties).evaluate context state =
      (.ok steps, after)) :
    ∃ parts, Members context claimed properties parts ∧
      Binds context state after number (namesOf parts) (Pattern.parts parts).act steps := by
  induction properties generalizing claimed state steps with
  | nil =>
    obtain ⟨rfl, rfl⟩ := pure_eq_ok.mp run
    exact ⟨[], .nil, .nil⟩
  | cons property properties onward =>
    rw [unpackProperties] at run
    obtain ⟨⟨first, keys⟩, between, here, run⟩ := bind_eq_ok.mp run
    obtain ⟨second, later, rfl⟩ := map_eq_ok.mp run
    obtain ⟨part, member, head⟩ := binds_property declares (ready _ (.head _)) here
    obtain ⟨parts, members, tail⟩ := onward (Nat.lt_of_lt_of_le old head.forward)
      (fun other listed => ready other (.tail _ listed)) later
    exact ⟨part :: parts, .cons member members, binds_cons free old head tail⟩

omit free in
theorem binds_element
    (run : (unpackElement mode (tempName number) index node).evaluate context state =
      (.ok steps, after)) :
    ∃ part, Element context index node part ∧
      Binds context state after number part.names part.act steps := by
  rw [unpackElement] at run
  split at run
  · rename_i kind
    split at run
    · simp at run
    rename_i target first
    obtain ⟨pattern, stands, binds⟩ := binds_target declares rfl (ready.first first).top run
    exact ⟨_, .rest (eq_of_beq kind) first stands, binds⟩
  · split at run
    · obtain ⟨pattern, default?, defaults, binds⟩ := binds_either declares rfl ready rfl run
      exact ⟨_, .single defaults, binds⟩
    · simp at run

omit ready

theorem binds_elements {elements : List Part} (old : number < state.nextTemp)
    (ready : ∀ element ∈ elements, element.Throughout (Ready context))
    (run : (unpackElements mode (tempName number) index elements).evaluate context state =
      (.ok steps, after)) :
    ∃ parts, Elements context index elements parts ∧
      Binds context state after number (namesOf parts) (Pattern.parts parts).act steps := by
  induction elements generalizing index state steps with
  | nil =>
    obtain ⟨rfl, rfl⟩ := pure_eq_ok.mp run
    exact ⟨[], .nil, .nil⟩
  | cons element elements onward =>
    have others : ∀ element ∈ elements, element.Throughout (Ready context) :=
      fun other listed => ready other (.tail _ listed)
    rw [unpackElements] at run
    split at run
    · rename_i kind
      obtain ⟨parts, rest, binds⟩ := onward old others run
      exact ⟨parts, .bracket (by simpa using kind) rest, binds⟩
    · split at run
      · rename_i kind
        obtain ⟨parts, rest, binds⟩ := onward old others run
        exact ⟨parts, .comma (eq_of_beq kind) rest, binds⟩
      · obtain ⟨first, between, here, run⟩ := bind_eq_ok.mp run
        obtain ⟨second, later, rfl⟩ := map_eq_ok.mp run
        obtain ⟨part, element, head⟩ := binds_element declares (ready _ (.head _)) here
        obtain ⟨parts, rest, tail⟩ := onward (Nat.lt_of_lt_of_le old head.forward) others later
        exact ⟨part :: parts, .cons element rest, binds_cons free old head tail⟩

omit free

omit declares in
theorem rendered_ready (context : Context) (tree : Node) :
    (rendered tree).Throughout (Ready context) := by
  have anything : tree.Throughout fun _ => True := fun _ _ => trivial
  refine Tree.throughout_annotate (fun token old children _ ready => ?_) anything
  rw [Tree.annotate_node]
  refine ⟨accepts_rendering
    (fun child member part inside => (ready child member part inside).framed)
    (fun _ => ⟨not_mem_nil, fun _ _ => trivial⟩) False.elim, ?_⟩
  generalize children.map (Tree.annotate rendering) = below at ready ⊢
  intro mode number state steps after declares free old run
  change (renderUnpack (partOf token below) mode (tempName number)).evaluate context state =
    _ at run
  have inside {part : Part} : part ∈ (partOf token below).parts → part ∈ below :=
    Tree.mem_children_of_mem_parts
  have named {part : Part} : part ∈ (partOf token below).named → part ∈ below :=
    Tree.mem_children_of_mem_named
  rw [renderUnpack] at run
  split at run
  · rename_i kind
    obtain ⟨parts, members, binds⟩ := binds_properties declares free old
      (fun property listed => ready property (named listed)) run
    exact ⟨.parts parts, .object (eq_of_beq kind) members, binds⟩
  · split at run
    · rename_i kind
      obtain ⟨parts, elements, binds⟩ := binds_elements declares free old
        (fun element listed => ready element (inside listed)) run
      exact ⟨.parts parts, .array (eq_of_beq kind) elements, binds⟩
    · simp at run

theorem binds_from (ready : Ready context node)
    (free : tempName number ∉ context.takenTemps) (old : number < state.nextTemp)
    (run : (unpackFrom mode node (tempName number)).evaluate context state = (.ok steps, after)) :
    ∃ pattern, Stands context node pattern ∧
      Binds context state after number pattern.names pattern.act steps := by
  rw [unpackFrom] at run
  split at run
  · exact ready.unpacks declares free old run
  obtain ⟨pattern, stands, binds⟩ := binds_target declares rfl ready run
  rw [Act.of_whole] at binds
  exact ⟨pattern, stands, binds⟩

end Lowering

namespace Sample

open Lower.Sample (node identifier around)

def mark (text : String) : Node :=
  .node ⟨text, false, false, "", 0, 0, ⟨1, 1⟩, text⟩ () []

def nested : Node :=
  node "object_pattern" "name" "" [
    node "pair_pattern" "" "" [
      node "property_identifier" "key" "a" [],
      node "array_pattern" "value" "" [mark "[", mark ",",
        node "assignment_pattern" "" "" [identifier "left" "b", identifier "right" "d"], mark "]"]],
    node "rest_pattern" "" "" [identifier "" "rest"]]

def fields (names : List String) : Node :=
  node "object_pattern" "name" ""
    (names.map fun name => node "shorthand_property_identifier_pattern" "" name [])

def lowered (pattern : Node) : Except Unsupported (String × List BindingStep) × State :=
  (destructure .constant (rendered pattern) (rendered (identifier "value" "o"))).evaluate
    (around pattern) .initial

def steps : List BindingStep :=
  [.evaluate "__tmp0" "o", .hold "__tmp1" (.field "__tmp0" "a"),
    .hold "__tmp2" (.element "__tmp1" 1), .declare true "b" (.fallback "__tmp2" "d"),
    .copy "__tmp3" "__tmp0", .drop "__tmp3" "a", .declare true "rest" (.whole "__tmp3")]

def nestedLines : List Haxe.Code :=
  lines ["var __tmp0 = o;", "var __tmp1 = __tmp0.a;", "var __tmp2 = __tmp1[1];",
    "final b = (__tmp2 == null ? d : __tmp2);", "var __tmp3 = Reflect.copy(__tmp0);",
    "Reflect.deleteField(__tmp3, \"a\");", "final rest = __tmp3;"]

def setting : Setting (around nested) (List String) where
  names := ["o", "b", "d", "rest"]
  distinct := by decide +kernel
  apart := by
    have starts : ∀ name ∈ ["o", "b", "d", "rest"],
        (Haxe.sanitize name).toList.head? ≠ some '_' := by
      decide +kernel
    intro name listed number alike
    refine absurd ?_ (starts name listed)
    rw [alike, toList_tempName]
    rfl
  meaning expression scope trace := (scope expression, scope, trace ++ [expression])
  lenient := true

def slots : Scope := fun name =>
  if name = "o" then .object [("a", .array [.null]), ("c", .array [])] else .null

def constantly (context : Context) (value : Value) : Setting context Unit where
  names := []
  distinct := by simp
  apart := by simp
  meaning _ _ _ := (value, fun _ => .null, ())
  lenient := false

def isNull : Value → Bool
  | .null => true
  | _ => false

/-- Whether a name of a pattern of fields is null where the pattern is bound to a value, and
whether its variable is null behind the steps. -/
def nulls (names : List String) (name : String) (value : Value) : Option Bool × Option Bool :=
  let setting := constantly (around (fields names)) value
  let portions := names.map fun name => Portion.mk (.field name) none (.name name)
  let reference := (Pattern.parts portions).bind setting value (fun _ => .null, ())
  let steps := (lowered (fields names)).1.toOption.elim [] (·.2)
  (reference.toOption.map fun now => isNull (now.1 name),
    (performAll setting steps (fun _ => .null, ())).toOption.map fun now =>
      isNull (now.1 (Haxe.sanitize name)))

end Sample

open Destructuring.Sample

end Haxify.Destructuring
