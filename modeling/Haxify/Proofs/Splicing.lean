import Haxify.Haxe.Writer
import Haxify.Proofs.Text

/-!
# Text written apart

A body may be written by a writer of its own and handed over as one text. At every point of a run
the lines written apart are those written in place, less the margin of the outer writer, and no
line holds a line break, so the text is cut where it was joined. This needs that the run never
goes further out than where it started: a writer of its own would stay there. Main statement: a
text written apart and placed as a line is what is written in place, and a block ends where it
started.
-/

namespace Haxify.Haxe.Writer

open List
open Text (copies splitOn)

/-- A writer behind the opening of a block. -/
def opened (writer : Writer) (header : String) : Writer := (writer.line (header ++ " \x7b")).indent

mutual

/-- A step that never goes further out than the outermost level, from where a writer stands. -/
def Step.Stays (writer : Writer) : Step → Prop
  | .dedent => 0 < writer.level
  | .block header body =>
    StaysAll (writer.opened header) body ∧ 0 < (runSteps (writer.opened header) body).2.1.level
  | _ => True

/-- The same of the steps that are run: those up to the first that fails. -/
def StaysAll (writer : Writer) : List Step → Prop
  | [] => True
  | step :: rest => step.Stays writer ∧
    ((runStep writer step).1 = .ok () → StaysAll (runStep writer step).2.1 rest)

end

/-- Writers at the same point of a run: one writes in place, behind what an outer writer has
written, and one apart, from the outermost level. -/
structure Spliced (outer apart inPlace : Writer) : Prop where
  unit : apart.unit = outer.unit ∧ inPlace.unit = outer.unit
  level : inPlace.level = outer.level + apart.level
  lines : inPlace.lines = outer.lines ++ apart.lines.map (placed outer.margin)
  single : '\n' ∉ outer.unit.toList ∧ ∀ line ∈ apart.lines, '\n' ∉ line.toList

theorem placed_placed (outer inner line : String) :
    placed outer (placed inner line) = placed (outer ++ inner) line := by
  unfold placed
  by_cases empty : line = ""
  · rw [if_pos empty, if_pos rfl, if_pos empty]
  · rw [if_neg empty, if_neg (by simp [empty]), if_neg empty, String.append_assoc]

theorem placed_single {margin line : String} (outside : '\n' ∉ margin.toList)
    (inside : '\n' ∉ line.toList) : '\n' ∉ (placed margin line).toList := by
  unfold placed
  split
  · decide
  · rw [String.toList_append, mem_append]
    exact not_or.mpr ⟨outside, inside⟩

theorem copies_add (unit : String) (first second : Nat) :
    copies unit (first + second) = copies unit first ++ copies unit second := by
  induction first with
  | zero => rw [Nat.zero_add, copies, String.empty_append]
  | succ first fewer => rw [Nat.add_right_comm, copies, fewer, copies, String.append_assoc]

theorem copies_single {unit : String} (plain : '\n' ∉ unit.toList) (count : Nat) :
    '\n' ∉ (copies unit count).toList := by
  induction count with
  | zero => simp [copies]
  | succ count fewer =>
    rw [copies, String.toList_append, mem_append]
    exact not_or.mpr ⟨plain, fewer⟩

namespace Spliced

variable {outer apart inPlace : Writer}

theorem start (plain : '\n' ∉ outer.unit.toList) : Spliced outer (.empty outer.unit) outer :=
  ⟨⟨rfl, rfl⟩, rfl, (append_nil _).symm, plain, forall_mem_nil _⟩

variable (spliced : Spliced outer apart inPlace)
include spliced

theorem margin : inPlace.margin = outer.margin ++ apart.margin := by
  rw [Writer.margin, spliced.level, spliced.unit.2, copies_add, Writer.margin, Writer.margin,
    spliced.unit.1]

theorem line (text : String) : Spliced outer (apart.line text) (inPlace.line text) := by
  refine ⟨spliced.unit, spliced.level, ?_, spliced.single.1, fun line member => ?_⟩
  · have pieces : placed inPlace.margin = placed outer.margin ∘ placed apart.margin := by
      funext piece
      rw [Function.comp_apply, placed_placed, spliced.margin]
    rw [Writer.line, Writer.line, spliced.lines, pieces, map_append, map_map, append_assoc]
  · rcases mem_append.mp member with before | added
    · exact spliced.single.2 line before
    · obtain ⟨piece, listed, rfl⟩ := mem_map.mp added
      exact placed_single (copies_single (spliced.unit.1 ▸ spliced.single.1) _)
        fun inside => (Text.mem_of_mem_splitOn listed inside).2 rfl

theorem blank : Spliced outer apart.blank inPlace.blank := by
  refine ⟨spliced.unit, spliced.level, ?_, spliced.single.1, fun line member => ?_⟩
  · rw [Writer.blank, Writer.blank, spliced.lines, map_append, append_assoc]
    rfl
  · rcases mem_append.mp member with before | added
    · exact spliced.single.2 line before
    · rw [mem_singleton.mp added]
      decide

theorem indent : Spliced outer apart.indent inPlace.indent :=
  { spliced with level := congrArg (· + 1) spliced.level }

theorem dedent (above : 0 < apart.level) : Spliced outer apart.dedent inPlace.dedent := by
  have level : inPlace.level - 1 = outer.level + (apart.level - 1) := by
    rw [spliced.level, Nat.add_sub_assoc above]
  exact { spliced with level }

end Spliced

/-- Two runs that end alike, at the same point. -/
def EndAlike (outer : Writer) (apart inPlace : Except String Unit × Writer × List Shown) : Prop :=
  inPlace.1 = apart.1 ∧ Spliced outer apart.2.1 inPlace.2.1

mutual

theorem runStep_spliced {outer apart inPlace : Writer} (spliced : Spliced outer apart inPlace) :
    (step : Step) → step.Stays apart → EndAlike outer (runStep apart step) (runStep inPlace step)
  | .line text, _ => ⟨rfl, spliced.line text⟩
  | .blank, _ => ⟨rfl, spliced.blank⟩
  | .indent, _ => ⟨rfl, spliced.indent⟩
  | .dedent, above => ⟨rfl, spliced.dedent above⟩
  | .block header body, stays => by
    obtain ⟨inside, above⟩ := stays
    obtain ⟨same, ends⟩ := runSteps_spliced (spliced.line (header ++ " \x7b")).indent body inside
    rw [runStep, runStep]
    exact ⟨same, (ends.dedent above).line _⟩
  | .fail _, _ => ⟨rfl, spliced⟩

theorem runSteps_spliced {outer apart inPlace : Writer} (spliced : Spliced outer apart inPlace) :
    (steps : List Step) → StaysAll apart steps →
      EndAlike outer (runSteps apart steps) (runSteps inPlace steps)
  | [], _ => ⟨rfl, spliced⟩
  | step :: rest, stays => by
    obtain ⟨here, later⟩ := stays
    obtain ⟨same, ends⟩ := runStep_spliced spliced step here
    rw [runSteps, runSteps]
    rcases first : runStep apart step with ⟨outcome, after, shown⟩
    rcases second : runStep inPlace step with ⟨outcome', after', shown'⟩
    rw [first, second] at same ends
    rw [first] at later
    cases same
    cases outcome with
    | error error => exact ⟨rfl, ends⟩
    | ok done => exact runSteps_spliced ends rest (later rfl)

end

theorem line_finish {outer apart inPlace : Writer} (spliced : Spliced outer apart inPlace)
    (some : apart.lines ≠ []) : (outer.line apart.finish).lines = inPlace.lines := by
  have cut : splitOn '\n' apart.finish = apart.lines := by
    refine (Text.splitOn_joinWith '\n' some).trans ?_
    rw [flatMap_def, map_congr_left fun line member =>
      Text.splitOn_of_not_mem (spliced.single.2 line member), ← flatMap_def,
      flatMap_singleton']
  rw [Writer.line, cut, spliced.lines]

/-- What a writer of its own writes in a run, placed as one text, is what the run writes in place,
and the run ends alike, if it never goes further out than where it started. A block is closed
where it was opened and ends as its body does, if the body ends at the level it started from; the
blocks of a run are such blocks. -/
theorem splicing_writes_in_place {writer : Writer} (plain : '\n' ∉ writer.unit.toList) :
    (∀ steps, StaysAll (.empty writer.unit) steps →
      (runSteps (.empty writer.unit) steps).2.1.lines ≠ [] →
      ∃ added,
        (writer.line (runSteps (.empty writer.unit) steps).2.1.finish).lines = writer.lines ++
          added ∧
        (runSteps writer steps).2.1.lines = writer.lines ++ added ∧
        (runSteps writer steps).1 = (runSteps (.empty writer.unit) steps).1) ∧
    (∀ (header : String) (ε : Type) (body : Writer → Except ε Unit × Writer),
      (body (writer.opened header)).2.level = (writer.opened header).level →
      (writer.block header body).1 = (body (writer.opened header)).1 ∧
        (writer.block header body).2.level = writer.level ∧
        (writer.block header body).2.lines = (body (writer.opened header)).2.lines ++
          [copies (body (writer.opened header)).2.unit writer.level ++ "\x7d"]) ∧
    ∀ header steps, writer.block header
        (fun inside => ((runSteps inside steps).1, (runSteps inside steps).2.1)) =
      ((runStep writer (.block header steps)).1, (runStep writer (.block header steps)).2.1) := by
  refine ⟨fun steps stays some => ?_, fun header ε body ends => ?_, fun header steps => rfl⟩
  · obtain ⟨same, spliced⟩ := runSteps_spliced (.start plain) steps stays
    exact ⟨_, (line_finish spliced some).trans spliced.lines, spliced.lines, same⟩
  · have level : (body (writer.opened header)).2.dedent.level = writer.level :=
      congrArg (· - 1) ends
    exact ⟨rfl, level, congrArg (_ ++ [copies _ · ++ "\x7d"]) level⟩

/-- A run with an empty line in a text and a block that fails one level further in. -/
def brokenOff : List Step :=
  [.line "a\n\nb", .block "try" [.line "c", .indent, .fail "stop"], .dedent, .dedent]

theorem broken_off_run_is_spliced :
    (Writer.line ⟨"\t", 1, ["f"]⟩ "a\n\nb\ntry \x7b\n\tc\n\t\x7d").lines =
        ["f", "\ta", "", "\tb", "\ttry \x7b", "\t\tc", "\t\t\x7d"] ∧
      (runSteps ⟨"\t", 1, ["f"]⟩ brokenOff).2.1.lines =
        (Writer.line ⟨"\t", 1, ["f"]⟩ "a\n\nb\ntry \x7b\n\tc\n\t\x7d").lines := by
  have stays : StaysAll (.empty "\t") brokenOff := by
    refine ⟨trivial, fun _ =>
      ⟨⟨⟨trivial, fun _ => ⟨trivial, fun _ => ⟨trivial, ?_⟩⟩⟩, by decide⟩, ?_⟩⟩
    all_goals
      intro ends
      cases ends
  have spliced :=
    (@splicing_writes_in_place ⟨"\t", 1, ["f"]⟩ (by decide)).1 brokenOff stays (by decide)
  obtain ⟨added, apart, inPlace, _⟩ := spliced
  exact ⟨by decide, inPlace.trans apart.symm⟩

end Haxify.Haxe.Writer
