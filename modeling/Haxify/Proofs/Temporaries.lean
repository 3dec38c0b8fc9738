import Haxify.Proofs.ExternNames
import Haxify.Proofs.Renaming
import Mathlib.Data.Nat.Nth

/-!
# Numbers of temporaries

The words of a text that look like temporaries are found where they stand between other
characters, and the numbers of the temporaries are those that no such word has, in order and
without a gap.
-/

namespace Haxify.Lower

open List

/-- Whether the temporary of a number is none of those taken. -/
abbrev IsFree (taken : List String) (number : Nat) : Prop := tempName number ∉ taken

theorem infinite_isFree (taken : List String) : (Set.ofPred (IsFree taken)).Infinite :=
  Set.infinite_of_forall_exists_gt fun bound =>
    ⟨_, Text.leastFree_not_mem tempName_injective taken (bound + 1),
      Text.le_leastFree tempName taken (bound + 1)⟩

theorem leastFree_eq_nth (taken : List String) (start : Nat) :
    Text.leastFree tempName taken start =
      Nat.nth (IsFree taken) (Nat.count (IsFree taken) start) := by
  obtain ⟨gap, found⟩ := Nat.exists_eq_add_of_le (Text.le_leastFree tempName taken start)
  have passed : Nat.count (fun number => IsFree taken (start + number)) gap = 0 := by
    refine Nat.count_iff_forall_not.mpr fun number before => not_not_intro ?_
    exact Text.mem_of_lt_leastFree (Nat.le_add_right start number) (by omega)
  have free : IsFree taken (start + gap) :=
    found ▸ Text.leastFree_not_mem tempName_injective taken start
  rw [found, ← Nat.nth_count free, Nat.count_add, passed, Nat.add_zero]

theorem evaluate_temporaries {α : Type} (items : List α) (context : Context) (state : State) :
    ∃ after, (forEach items fun _ => freshTemp).evaluate context state =
      (.ok ((range' (Nat.count (IsFree context.takenTemps) state.nextTemp) items.length).map
        fun index => tempName (Nat.nth (IsFree context.takenTemps) index)), after) := by
  induction items generalizing state with
  | nil => exact ⟨state, rfl⟩
  | cons item rest rest_run =>
    let free := IsFree context.takenTemps
    let found := Nat.nth free (Nat.count free state.nextTemp)
    have first : freshTemp.evaluate context state =
        (.ok (tempName found), { state with nextTemp := found + 1 }) := by
      rw [evaluate_freshTemp, leastFree_eq_nth]
    have behind : Nat.count free (found + 1) = Nat.count free state.nextTemp + 1 :=
      Nat.count_nth_succ_of_infinite (infinite_isFree _) _
    obtain ⟨after, second⟩ := rest_run { state with nextTemp := found + 1 }
    refine ⟨after, forEach_cons_eq_ok.mpr ⟨_, _, _, first, second, ?_⟩⟩
    rw [behind, length_cons, range'_succ, map_cons]

/-- The words kept clear of are those that stand in the text as words of their own and are the
stem with digits behind it. The temporaries that are taken one after the other are numbered with
the numbers of no such word, from the least one on and without leaving one out. -/
theorem temporaries_pass_over_words_exactly (program : Program) (registry : Foreign.Registry)
    (indent : String) (index : Nat) (file : SourceFile) (imports : Imports) :
    (∀ word, word ∈ tempNamesIn file.source ↔
      StandsIn word file.source ∧ ∃ digits, word.toList = tempStem.toList ++ digits ∧
        digits ≠ [] ∧ ∀ char ∈ digits, char.isDigit) ∧
    ∀ count, ∃ names after,
      (forEach (range count) fun _ => freshTemp).evaluate
        (fileContext program registry indent index file imports) .initial = (.ok names, after) ∧
      names.Nodup ∧ names = (range count).map fun call =>
        tempName (Nat.nth (fun number => tempName number ∉ tempNamesIn file.source) call) := by
  refine ⟨fun word => mem_tempNamesIn_iff, fun count => ?_⟩
  let context := fileContext program registry indent index file imports
  obtain ⟨after, run⟩ := evaluate_temporaries (range count) context .initial
  have start : Nat.count (IsFree context.takenTemps) State.initial.nextTemp = 0 := Nat.count_zero _
  rw [length_range, start, ← range_eq_range'] at run
  refine ⟨_, after, run, Nodup.map (fun first second same => ?_) nodup_range, rfl⟩
  exact Nat.nth_injective (infinite_isFree _) (tempName_injective same)

end Haxify.Lower
