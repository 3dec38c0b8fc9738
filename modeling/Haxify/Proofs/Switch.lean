import Haxify.Proofs.StatementRun
import Mathlib.Data.List.Forall2
import Mathlib.Data.List.TakeWhile

/-!
# What a lowered switch means

A switch enters the first clause whose label equals the subject, or else its default, and
runs on through the clauses behind it up to the first jump. In Haxe the first case with an
equal label is taken, or else the default, and nothing but its own statements runs. The two
are compared for every way in which the subject may equal labels.

They agree but for two defects. A clause whose body is an empty block is given an arm of its
own, in which nothing runs, though control runs on into the next clause. A label that shares
the statements of the default gets no case, so an equal label further down takes the subject
away from them. Main statement: apart from these, exactly the same statements run.
-/

namespace Haxify.Lower

open List

variable {clauses : List (Clause Part)} {earlier later : List (Arm Part)} {equals : String → Bool}
variable {α γ : Type} {holds wanted fallback : γ → Bool} {items rest : List γ} {item : γ}

def fromLast (holds : γ → Bool) : List γ → List γ
  | [] => []
  | item :: rest =>
    match fromLast holds rest with
    | [] => if holds item then item :: rest else []
    | found => found

/-- The items from the first wanted one on, or else from the fallback on. A switch has one
default at most; of several, which no program has, the last counts. -/
def enteredAt (wanted fallback : γ → Bool) (items : List γ) : List γ :=
  match items.dropWhile (!wanted ·) with
  | [] => fromLast fallback items
  | found => found

/-- The clauses from the one on that a subject enters, given which labels it equals. -/
def enteredClauses (equals : String → Bool) (clauses : List (Clause α)) : List (Clause α) :=
  enteredAt (·.label.any equals) (·.label.isNone) clauses

/-- The arms from the one that is entered. -/
def enteredArms (equals : String → Bool) (arms : List (Arm α)) : List (Arm α) :=
  enteredAt (·.labels.any equals) (·.isDefault) arms

def isPlainBreak (statement : TypeScript.Tree α) : Bool :=
  statement.kind == "break_statement" && (statement.field? "label").isNone

def countedRun (statements : List (TypeScript.Tree α)) : List (TypeScript.Tree α) :=
  (runAll statements).filter (!isPlainBreak ·)

/-- What runs of a switch with fall-through. -/
def sourceRun (equals : String → Bool) (clauses : List (Clause (TypeScript.Tree α))) :
    List (TypeScript.Tree α) :=
  countedRun ((enteredClauses equals clauses).flatMap (·.body))

/-- A switch without fall-through: the labels and statements of its cases, and the
statements of its default. -/
structure Selection (α : Type) where
  cases : List (List String × List α)
  default? : Option (List α)

namespace Selection

/-- The statements that a subject takes. -/
def chosen (selection : Selection α) (equals : String → Bool) : List α :=
  match selection.cases.find? (·.1.any equals) with
  | some taken => taken.2
  | none => selection.default?.getD []

/-- The headings of a switch, the default last, each with its statements. -/
def headed (selection : Selection α) : List (String × List α) :=
  selection.cases.map (fun arm => ("case " ++ Text.joinWith ", " arm.1 ++ ":", arm.2))
    ++ selection.default?.toList.map fun body => ("default:", body)

end Selection

/-- A subject is led astray: the label it enters at shares the statements of the default,
and another arm has an equal label or is a default too. -/
def Strays (equals : String → Bool) (arms : List (Arm α)) : Prop :=
  ∃ arm later, enteredArms equals arms = arm :: later ∧ arm.labels.any equals ∧ arm.isDefault ∧
    ∃ other ∈ later, other.isDefault ∨ other.labels.any equals

/-- A subject is left with nothing: the arm it enters is an empty block, and statements of
the arms behind it would run. -/
def Drains (equals : String → Bool) (arms : List (Arm (TypeScript.Tree α))) : Prop :=
  ∃ arm later, enteredArms equals arms = arm :: later ∧ arm.body = [] ∧
    countedRun (later.flatMap (·.body)) ≠ []

/-- The switch that arms are written as. -/
def selectionOf (arms : List (Arm Part)) : Selection Part where
  cases := (arms.filter (!·.isDefault)).map fun arm => (arm.labels, withoutBreak arm.body)
  default? := (arms.filter (·.isDefault)).getLast?.map fun arm => withoutBreak arm.body

theorem fromLast_cons_of_eq (none : fromLast holds rest = [])
    (item : γ) : fromLast holds (item :: rest) = if holds item then item :: rest else [] := by
  rw [fromLast, none]

theorem fromLast_cons_of_ne (some : fromLast holds rest ≠ [])
    (item : γ) : fromLast holds (item :: rest) = fromLast holds rest := by
  rw [fromLast]
  split
  · rename_i none
    exact absurd none some
  · rfl

theorem fromLast_eq_nil (none : fromLast holds items = []) :
    ∀ other ∈ items, holds other = false := by
  induction items with
  | nil => simp
  | cons item rest rest_none =>
    rw [fromLast] at none
    split at none
    · rename_i nothing
      split at none
      · cases none
      rename_i lacks
      intro other member
      rcases mem_cons.mp member with rfl | later
      · exact (Bool.not_eq_true _).mp lacks
      · exact rest_none nothing other later
    · rename_i some
      exact absurd none some

theorem fromLast_eq_cons (found : fromLast holds items = item :: rest) :
    ∃ before, items = before ++ item :: rest ∧ holds item ∧
      ∀ other ∈ rest, holds other = false := by
  induction items with
  | nil => cases found
  | cons first others others_found =>
    rw [fromLast] at found
    split at found
    · rename_i nothing
      split at found
      · rename_i has
        cases found
        exact ⟨[], rfl, has, fromLast_eq_nil nothing⟩
      · cases found
    · obtain ⟨before, split, has, lack⟩ := others_found found
      exact ⟨first :: before, by rw [split, cons_append], has, lack⟩

theorem enteredAt_eq_cons (entered : enteredAt wanted fallback items = item :: rest) :
    ∃ before, items = before ++ item :: rest ∧
      ((wanted item ∧ ∀ other ∈ before, wanted other = false) ∨
        ((∀ other ∈ items, wanted other = false) ∧ fallback item ∧
          ∀ other ∈ rest, fallback other = false)) := by
  rw [enteredAt] at entered
  split at entered
  · rename_i nothing
    obtain ⟨before, split, has, lack⟩ := fromLast_eq_cons entered
    have unwanted : ∀ other ∈ items, wanted other = false := by
      intro other member
      simpa using dropWhile_eq_nil_iff.mp nothing other member
    exact ⟨before, split, .inr ⟨unwanted, has, lack⟩⟩
  · have split := takeWhile_append_dropWhile (p := (!wanted ·)) (l := items)
    rw [entered] at split
    have first : (!wanted item) = false := by
      have some : items.dropWhile (!wanted ·) ≠ [] := by
        rw [entered]
        exact cons_ne_nil item rest
      have head := head_dropWhile_not (!wanted ·) some
      simpa only [entered, head_cons] using head
    refine ⟨items.takeWhile (!wanted ·), split.symm, .inl ⟨by simpa using first, ?_⟩⟩
    intro other member
    simpa using mem_takeWhile_imp member

theorem enteredAt_eq_nil (outside : enteredAt wanted fallback items = []) :
    ∀ other ∈ items, wanted other = false ∧ fallback other = false := by
  rw [enteredAt] at outside
  split at outside
  · rename_i nothing
    intro other member
    exact ⟨by simpa using dropWhile_eq_nil_iff.mp nothing other member,
      fromLast_eq_nil outside other member⟩
  · rename_i some
    exact absurd outside some

section Arms

variable {opened : List α → List α} {clauses : List (Clause α)}

theorem arms_eq_nil_iff : arms opened clauses = [] ↔ clauses = [] := by
  cases clauses with
  | nil => simp [arms]
  | cons clause rest =>
    rw [arms]
    split
    · split
      · simp
      · simp
    · simp

/-- A property of clauses and one of arms that agree: an arm has it exactly when one of its
clauses does. -/
structure Agree (ofClause : Clause α → Bool) (ofArm : Arm α → Bool) : Prop where
  own : ∀ clause body, ofArm (clause.arm body) = ofClause clause
  joining : ∀ clause arm, ofArm (Arm.joining clause arm) = (ofClause clause || ofArm arm)

theorem agree_labels (equals : String → Bool) :
    Agree (fun clause : Clause α => clause.label.any equals) (·.labels.any equals) := by
  constructor
  · intro clause body
    cases label : clause.label <;> simp [Clause.arm, label]
  · intro clause arm
    cases label : clause.label <;> simp [Arm.joining, label]

theorem agree_default : Agree (fun clause : Clause α => clause.label.isNone) (·.isDefault) :=
  ⟨fun _ _ => rfl, fun _ _ => rfl⟩

variable {ofClause : Clause α → Bool} {ofArm : Arm α → Bool}

theorem bodies_arms_dropWhile (opened : List α → List α) (agree : Agree ofClause ofArm)
    (clauses : List (Clause α)) :
    (arms opened (clauses.dropWhile (!ofClause ·))).map (·.body) =
      ((arms opened clauses).dropWhile (!ofArm ·)).map (·.body) := by
  induction clauses with
  | nil => rfl
  | cons clause rest rest_bodies =>
    by_cases has : ofClause clause
    · -- The arm of the clause comes first and has the property too.
      have kept : ∀ arm others, ofArm arm →
          ((arm :: others : List (Arm α)).dropWhile (!ofArm ·)) = arm :: others := by
        intro arm others holds
        rw [dropWhile_cons, if_neg (by simp [holds])]
      rw [dropWhile_cons, if_neg (by simp [has]), arms]
      split
      · split
        · rw [kept _ _ (by rw [agree.own]; exact has)]
        · rw [kept _ _ (by rw [agree.joining, has, Bool.true_or])]
      · rw [kept _ _ (by rw [agree.own]; exact has)]
    · have lacks := (Bool.not_eq_true _).mp has
      rw [dropWhile_cons, if_pos (by simp [lacks]), rest_bodies, arms]
      split
      · split
        · rename_i none
          simp [none, agree.own, lacks]
        · rename_i next others some
          rw [some, dropWhile_cons, dropWhile_cons, agree.joining, lacks, Bool.false_or]
          split
          · rfl
          · rfl
      · rw [dropWhile_cons, agree.own, lacks]
        rfl

theorem bodies_fromLast_joining (agree : Agree ofClause ofArm) (clause : Clause α)
    (arm : Arm α) (others : List (Arm α)) (some : fromLast ofArm (arm :: others) ≠ []) :
    (fromLast ofArm (Arm.joining clause arm :: others)).map (·.body) =
      (fromLast ofArm (arm :: others)).map (·.body) := by
  by_cases none : fromLast ofArm others = []
  · rw [fromLast_cons_of_eq none] at some ⊢
    rw [fromLast_cons_of_eq none, agree.joining]
    have has : ofArm arm := by
      by_contra lacks
      exact some (if_neg lacks)
    rw [has, Bool.or_true]
    rfl
  · rw [fromLast_cons_of_ne none, fromLast_cons_of_ne none]

theorem bodies_arms_fromLast (opened : List α → List α) (agree : Agree ofClause ofArm)
    (clauses : List (Clause α)) :
    (arms opened (fromLast ofClause clauses)).map (·.body) =
      (fromLast ofArm (arms opened clauses)).map (·.body) := by
  induction clauses with
  | nil => rfl
  | cons clause rest rest_bodies =>
    by_cases none : fromLast ofClause rest = []
    · have noArm : fromLast ofArm (arms opened rest) = [] := by
        rw [none] at rest_bodies
        exact map_eq_nil_iff.mp rest_bodies.symm
      have same : fromLast ofArm (arms opened (clause :: rest)) =
          if ofClause clause then arms opened (clause :: rest) else [] := by
        rw [arms]
        split
        · split
          · rw [fromLast_cons_of_eq rfl, agree.own]
          rename_i next others found
          rw [found] at noArm
          have lacks := fromLast_eq_nil noArm
          have behind : fromLast ofArm others = [] := by
            by_contra some
            rw [fromLast_cons_of_ne some] at noArm
            exact some noArm
          rw [fromLast_cons_of_eq behind, agree.joining, lacks next (.head _), Bool.or_false]
        · rw [fromLast_cons_of_eq noArm, agree.own]
      rw [fromLast_cons_of_eq none, same]
      split
      · rfl
      · rfl
    · have someArm : fromLast ofArm (arms opened rest) ≠ [] := by
        intro empty
        rw [empty, map_nil, map_eq_nil_iff, arms_eq_nil_iff] at rest_bodies
        exact none rest_bodies
      rw [fromLast_cons_of_ne none, rest_bodies, arms]
      split
      · split
        · rename_i empty
          rw [empty] at someArm
          exact absurd rfl someArm
        · rename_i next others found
          rw [found] at someArm ⊢
          exact (bodies_fromLast_joining agree clause next others someArm).symm
      · rw [fromLast_cons_of_ne someArm]

/-- A subject enters the arms where it enters the clauses: the bodies from there on are
the same. -/
theorem bodies_arms_entered (equals : String → Bool) (clauses : List (Clause α)) :
    (arms opened (enteredClauses equals clauses)).map (·.body) =
      (enteredArms equals (arms opened clauses)).map (·.body) := by
  have first := bodies_arms_dropWhile opened (agree_labels equals) clauses
  rw [enteredClauses, enteredArms, enteredAt, enteredAt]
  split
  · rename_i none
    rw [none] at first
    rw [map_eq_nil_iff.mp first.symm]
    exact bodies_arms_fromLast opened agree_default clauses
  · rename_i some
    rw [first]
    split
    · rename_i none
      rw [none, map_nil, map_eq_nil_iff, arms_eq_nil_iff] at first
      exact absurd first some
    · rfl

theorem ends_of_fallsThrough?_eq_none {ends : α → Bool} {earlier later : List (Arm α)}
    {arm : Arm α} (none : fallsThrough? ends (earlier ++ arm :: later) = none) :
    arm.body = [] ∨ later = [] ∨ arm.body.getLast?.any ends := by
  induction earlier with
  | nil =>
    cases later with
    | nil => exact .inr (.inl rfl)
    | cons next rest =>
      rw [nil_append, fallsThrough?] at none
      split at none
      · cases none
      rename_i stays
      rw [Bool.and_eq_true, not_and_or] at stays
      rcases stays with empty | ended
      · exact .inl (by simpa using empty)
      · exact .inr (.inr (by simpa using ended))
  | cons first rest rest_ends =>
    cases behind : rest ++ arm :: later with
    | nil => simp at behind
    | cons next others =>
      rw [cons_append, behind, fallsThrough?] at none
      split at none
      · cases none
      · rw [← behind] at none
        exact rest_ends none

end Arms

section Runs

variable {arm : Arm Part}

theorem runAll_arms (statements : ∀ clause ∈ clauses, ∀ part ∈ clause.body, isStatement part) :
    runAll ((arms openedBody clauses).flatMap (·.body)) = runAll (clauses.flatMap (·.body)) := by
  induction clauses with
  | nil => rfl
  | cons clause rest rest_run =>
    have behind := rest_run fun other member => statements other (.tail _ member)
    rw [arms]
    split
    · rename_i empty
      rw [flatMap_cons, isEmpty_iff.mp empty, nil_append, ← behind]
      split
      · rename_i none
        rw [none]
        rfl
      · rename_i next others some
        rw [some]
        rfl
    · have opened := runAll_openedBody (statements clause (.head _))
      rw [flatMap_cons, flatMap_cons, runAll_append, runAll_append, behind]
      exact congrArg (followedBy · _) opened

theorem runAll_arm (statements : ∀ part ∈ arm.body, isStatement part)
    (none : fallsThrough? terminates (earlier ++ arm :: later) = none) (some : arm.body ≠ []) :
    runAll ((arm :: later).flatMap (·.body)) = runAll arm.body := by
  rw [flatMap_cons, runAll_append]
  rcases ends_of_fallsThrough?_eq_none none with empty | last | ended
  · exact absurd empty some
  · rw [last]
    exact followedBy_nil _
  · apply followedBy_of_any
    apply any_runAll_of_getLast?
    rw [filter_eq_self.mpr statements]
    cases found : arm.body.getLast? with
    | none => simp [found] at ended
    | some final =>
      rw [found] at ended
      exact any_runOf_of_terminates ended

theorem filter_eq_self_of_no_break {run : List Part}
    (none : ∀ statement ∈ run, statement.kind ≠ "break_statement") :
    run.filter (!isPlainBreak ·) = run := by
  apply filter_eq_self.mpr
  intro statement member
  have other : (statement.kind == "break_statement") = false :=
    beq_eq_false_iff_ne.mpr (none statement member)
  rw [isPlainBreak, other]
  rfl

theorem countedRun_eq_runAll_withoutBreak {body : List Part}
    (statements : ∀ part ∈ body, isStatement part)
    (none : ∀ statement ∈ runAll (withoutBreak body), statement.kind ≠ "break_statement") :
    countedRun body = runAll (withoutBreak body) := by
  have plain : ∀ last ∈ body.getLast?, isPlainBreak last → withoutBreak body = body.dropLast := by
    intro last found breaks
    rw [withoutBreak, Option.mem_def.mp found]
    exact if_pos breaks
  have kept : (∀ last ∈ body.getLast?, isPlainBreak last = false) → withoutBreak body = body := by
    intro others
    rw [withoutBreak]
    split
    · rename_i last found
      exact if_neg ((Bool.not_eq_true _).mpr (others last found))
    · rfl
  by_cases ends : ∃ last ∈ body.getLast?, isPlainBreak last
  · obtain ⟨last, found, breaks⟩ := ends
    have split : body = body.dropLast ++ [last] := (dropLast_append_getLast? last found).symm
    have member : last ∈ body := mem_of_mem_getLast? found
    have kind_eq : last.kind = "break_statement" := by
      rw [isPlainBreak, Bool.and_eq_true] at breaks
      exact eq_of_beq breaks.1
    have alone : runAll [last] = [last] := by
      rw [runAll_singleton (statements last member), runOf_of_ne (by rw [kind_eq]; decide)]
    rw [plain last found breaks] at none ⊢
    rw [countedRun]
    conv_lhs => rw [split, runAll_append, alone, followedBy]
    split
    · exact filter_eq_self_of_no_break none
    · rw [filter_append, filter_eq_self_of_no_break none]
      simp [breaks]
  · have others : ∀ last ∈ body.getLast?, isPlainBreak last = false := by
      intro last found
      by_contra breaks
      exact ends ⟨last, found, (Bool.not_eq_false _).mp breaks⟩
    rw [kept others] at none ⊢
    exact filter_eq_self_of_no_break none

end Runs

section Choices

variable {arm : Arm Part}
variable {all : List (Arm Part)}

theorem chosen_of_find?
    (found : (all.filter (!·.isDefault)).find? (·.labels.any equals) = some arm) :
    (selectionOf all).chosen equals = withoutBreak arm.body := by
  rw [Selection.chosen, selectionOf, find?_map]
  simp only [Function.comp_def, found, Option.map_some]

theorem chosen_of_find?_none
    (none : (all.filter (!·.isDefault)).find? (·.labels.any equals) = none) :
    (selectionOf all).chosen equals =
      ((all.filter (·.isDefault)).getLast?.map fun arm => withoutBreak arm.body).getD [] := by
  rw [Selection.chosen, selectionOf, find?_map]
  simp only [Function.comp_def, none, Option.map_none]

theorem find?_cases_eq_none (lacks : ∀ arm ∈ all, arm.labels.any equals = false) :
    (all.filter (!·.isDefault)).find? (·.labels.any equals) = none := by
  apply find?_eq_none.mpr
  intro arm member
  rw [lacks arm (mem_filter.mp member).1]
  decide

theorem filter_default_eq_nil (lacks : ∀ arm ∈ all, arm.isDefault = false) :
    all.filter (·.isDefault) = [] := by
  apply filter_eq_nil_iff.mpr
  intro arm member
  rw [lacks arm member]
  decide

theorem chosen_of_not_strays (stays : ¬Strays equals all)
    (entered : enteredArms equals all = arm :: later) :
    (selectionOf all).chosen equals = withoutBreak arm.body := by
  obtain ⟨before, split, reason⟩ := enteredAt_eq_cons entered
  have last (only : ∀ other ∈ later, other.isDefault = false) (isDefault : arm.isDefault) :
      (all.filter (·.isDefault)).getLast? = some arm := by
    rw [split, filter_append, filter_cons_of_pos isDefault, filter_default_eq_nil only,
      getLast?_append]
    rfl
  rcases reason with ⟨equal, unequal⟩ | ⟨unequal, isDefault, only⟩
  · by_cases isDefault : arm.isDefault
    · have apart : ∀ other ∈ later, other.isDefault = false ∧ other.labels.any equals = false := by
        intro other member
        have alone : ¬(other.isDefault ∨ other.labels.any equals) := fun either =>
          stays ⟨arm, later, entered, equal, isDefault, other, member, either⟩
        obtain ⟨noDefault, noLabel⟩ := not_or.mp alone
        exact ⟨(Bool.not_eq_true _).mp noDefault, (Bool.not_eq_true _).mp noLabel⟩
      have none : (all.filter (!·.isDefault)).find? (·.labels.any equals) = none := by
        rw [split, filter_append, filter_cons_of_neg (by simp [isDefault]),
          find?_append, find?_cases_eq_none unequal,
          find?_cases_eq_none fun other member => (apart other member).2]
        rfl
      rw [chosen_of_find?_none none, last (fun other member => (apart other member).1) isDefault]
      rfl
    · apply chosen_of_find?
      rw [split, filter_append, filter_cons_of_pos (by simpa using isDefault),
        find?_append, find?_cases_eq_none unequal, Option.none_or]
      exact find?_cons_of_pos equal
  · rw [chosen_of_find?_none (find?_cases_eq_none unequal), last only isDefault]
    rfl

theorem chosen_of_strays (strays : Strays equals all) :
    ∃ arm later other, enteredArms equals all = arm :: later ∧ other ∈ later ∧
      (selectionOf all).chosen equals = withoutBreak other.body := by
  obtain ⟨arm, later, entered, equal, isDefault, other, member, either⟩ := strays
  obtain ⟨before, split, reason⟩ := enteredAt_eq_cons entered
  have unequal : ∀ other ∈ before, other.labels.any equals = false := by
    rcases reason with ⟨_, unequal⟩ | ⟨none, _⟩
    · exact unequal
    · intro other inside
      exact none other (by rw [split]; exact mem_append_left _ inside)
  have cases_eq : (all.filter (!·.isDefault)).find? (·.labels.any equals) =
      (later.filter (!·.isDefault)).find? (·.labels.any equals) := by
    rw [split, filter_append, filter_cons_of_neg (by simp [isDefault]),
      find?_append, find?_cases_eq_none unequal, Option.none_or]
  cases found : (later.filter (!·.isDefault)).find? (·.labels.any equals) with
  | some taken =>
    have inside := (mem_filter.mp (mem_of_find?_eq_some found)).1
    exact ⟨arm, later, taken, entered, inside, chosen_of_find? (cases_eq.trans found)⟩
  | none =>
    -- The other arm has no case, so it is a default, and the last default stands behind.
    have another : other ∈ later.filter (·.isDefault) := by
      rcases either with default | label
      · exact mem_filter.mpr ⟨member, default⟩
      · by_cases default : other.isDefault
        · exact mem_filter.mpr ⟨member, default⟩
        · have listed : other ∈ later.filter (!·.isDefault) :=
            mem_filter.mpr ⟨member, by simpa using default⟩
          exact absurd label (find?_eq_none.mp found other listed)
    obtain ⟨final, foundFinal⟩ := getLast?_isSome.mpr (ne_nil_of_mem another) |>
      Option.isSome_iff_exists.mp
    have inside := (mem_filter.mp (mem_of_mem_getLast? foundFinal)).1
    refine ⟨arm, later, final, entered, inside, ?_⟩
    rw [chosen_of_find?_none (cases_eq.trans found), split, filter_append,
      filter_cons_of_pos isDefault, getLast?_append, getLast?_cons, foundFinal]
    rfl

theorem chosen_of_entered_nil (outside : enteredArms equals all = []) :
    (selectionOf all).chosen equals = [] := by
  have lacks := enteredAt_eq_nil outside
  rw [chosen_of_find?_none (find?_cases_eq_none fun arm member => (lacks arm member).1),
    filter_default_eq_nil fun arm member => (lacks arm member).2]
  rfl

end Choices

section Agreement

variable (statements : ∀ clause ∈ clauses, ∀ part ∈ clause.body, isStatement part)
include statements

theorem sourceRun_eq_of_arms :
    sourceRun equals clauses =
      countedRun ((enteredArms equals (arms openedBody clauses)).flatMap (·.body)) := by
  have entered : ∀ clause ∈ enteredClauses equals clauses, clause ∈ clauses := by
    cases found : enteredClauses equals clauses with
    | nil => simp
    | cons first later =>
      obtain ⟨before, split, _⟩ := enteredAt_eq_cons found
      rw [split]
      exact fun clause => mem_append_right before
  have runs : runAll ((enteredClauses equals clauses).flatMap (·.body)) =
      runAll ((enteredArms equals (arms openedBody clauses)).flatMap (·.body)) := by
    rw [← runAll_arms fun clause member => statements clause (entered clause member),
      flatMap_def, flatMap_def, bodies_arms_entered]
  rw [sourceRun, countedRun, countedRun, runs]

/-- Where no arm runs on and no break is left, a subject that does not stray runs the
statements it takes exactly when it is not left with nothing. -/
theorem sourceRun_eq_chosen_iff
    (none : fallsThrough? terminates (arms openedBody clauses) = none)
    (noBreak : ∀ statement ∈ runAll ((selectionOf (arms openedBody clauses)).chosen equals),
      statement.kind ≠ "break_statement")
    (stays : ¬Strays equals (arms openedBody clauses)) :
    sourceRun equals clauses = runAll ((selectionOf (arms openedBody clauses)).chosen equals) ↔
      ¬Drains equals (arms openedBody clauses) := by
  rw [sourceRun_eq_of_arms statements]
  cases entered : enteredArms equals (arms openedBody clauses) with
  | nil =>
    rw [chosen_of_entered_nil entered]
    refine iff_of_true rfl ?_
    rintro ⟨arm, later, found, _⟩
    rw [entered] at found
    cases found
  | cons arm later =>
    obtain ⟨before, split, _⟩ := enteredAt_eq_cons entered
    have listed : arm ∈ arms openedBody clauses := by
      rw [split]
      exact mem_append_right _ (.head _)
    have drains_iff : Drains equals (arms openedBody clauses) ↔
        arm.body = [] ∧ countedRun (later.flatMap (·.body)) ≠ [] := by
      constructor
      · rintro ⟨_, _, found, empty, some⟩
        rw [entered] at found
        cases found
        exact ⟨empty, some⟩
      · rintro ⟨empty, some⟩
        exact ⟨arm, later, entered, empty, some⟩
    rw [chosen_of_not_strays stays entered] at noBreak ⊢
    rw [drains_iff]
    by_cases empty : arm.body = []
    · rw [flatMap_cons, empty, nil_append]
      simp [withoutBreak, runAll]
    · have body : ∀ part ∈ arm.body, isStatement part := fun part =>
        mem_arms_body (fun clause member part => isStatement_openedBody (statements clause member))
          listed
      have alone : runAll ((arm :: later).flatMap (·.body)) = runAll arm.body :=
        runAll_arm body (by rw [← split]; exact none) empty
      refine iff_of_true ?_ fun drained => empty drained.1
      rw [countedRun, alone]
      exact countedRun_eq_runAll_withoutBreak body noBreak

end Agreement

end Haxify.Lower
